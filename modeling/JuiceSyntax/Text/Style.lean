/-
  Colours and styles of terminal text. Painted text stands between an escape sequence that
  turns its style on and one that turns all styles off; where the text has such an end of its
  own inside, the style is turned on again after it.
-/

namespace JuiceSyntax

/-- The parameters of the escape sequence that turns a style on. -/
structure Style where
  codes : List Nat
deriving DecidableEq, Repr, Inhabited

namespace Style

def bold : Style := ⟨[1]⟩

def dimmed : Style := ⟨[2]⟩

def underlined : Style := ⟨[4]⟩

def blue : Style := ⟨[34]⟩

def cyan : Style := ⟨[36]⟩

def boldRed : Style := ⟨[1, 31]⟩

def boldGreen : Style := ⟨[1, 32]⟩

def boldYellow : Style := ⟨[1, 33]⟩

def boldBlue : Style := ⟨[1, 34]⟩

def boldCyan : Style := ⟨[1, 36]⟩

def opening (style : Style) : List Char :=
  ['\x1b', '['] ++ (";".intercalate (style.codes.map toString)).toList ++ ['m']

end Style

def styleEnd : List Char := ['\x1b', '[', '0', 'm']

/-- Turns a style on again after every end of styles. -/
def reopen (opening : List Char) : List Char → List Char
  | [] => []
  | '\x1b' :: '[' :: '0' :: 'm' :: rest => styleEnd ++ opening ++ reopen opening rest
  | c :: rest => c :: reopen opening rest

/-- The text in a style, if colours are on. -/
def paint (colour : Bool) (style : Style) (text : String) : String :=
  if colour then
    String.ofList (style.opening ++ reopen style.opening text.toList ++ styleEnd)
  else text

@[simp] theorem paint_false (style : Style) (text : String) : paint false style text = text := rfl

/-- At least `n` characters, filled up with spaces before the text. -/
def padLeft (n : Nat) (text : String) : String :=
  String.ofList (List.replicate (n - text.length) ' ') ++ text

/-- At least `n` characters, filled up with spaces after the text. -/
def padRight (n : Nat) (text : String) : String :=
  text ++ String.ofList (List.replicate (n - text.length) ' ')

def spaces (n : Nat) : String := String.ofList (List.replicate n ' ')

end JuiceSyntax
