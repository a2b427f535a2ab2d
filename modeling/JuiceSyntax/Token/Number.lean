/-
  Number literals. Underscores may stand between digits. An integer is the positional value of
  its digits and has to be below `2 ^ 64`; a decimal with a point is the double nearest to it.

  `positional_append_digit`: the value grows by one digit as positional notation says.
-/
import JuiceSyntax.Token.Fault

namespace JuiceSyntax

namespace Radix

/-- The value of a digit, in either case of letters. -/
def digit? (radix : Radix) (c : Char) : Option Nat :=
  let value :=
    if '0' ≤ c ∧ c ≤ '9' then some (c.toNat - '0'.toNat)
    else if 'a' ≤ c ∧ c ≤ 'z' then some (c.toNat - 'a'.toNat + 10)
    else if 'A' ≤ c ∧ c ≤ 'Z' then some (c.toNat - 'A'.toNat + 10)
    else none
  value.filter (· < radix.base)

def doublesUnderscore : List Char → Bool
  | [] => false
  | '_' :: '_' :: _ => true
  | _ :: cs => doublesUnderscore cs

/-- The first thing wrong with a run of digits: nothing there, then a stray underscore, then a
digit that does not belong. -/
def flaw? (radix : Radix) (digits : List Char) : Option DigitFlaw :=
  if digits.isEmpty then some .missing
  else if digits.head? == some '_' || digits.getLast? == some '_' || doublesUnderscore digits then
    some .underscore
  else if digits.any (fun c => c != '_' && (radix.digit? c).isNone) then some (.outside radix)
  else none

/-- The value of the digits, most significant first; underscores count for nothing. -/
def positional (radix : Radix) (digits : List Char) : Nat :=
  digits.foldl (fun n c => if c = '_' then n else n * radix.base + (radix.digit? c).getD 0) 0

theorem positional_append_digit (radix : Radix) (digits : List Char) (c : Char) (hc : c ≠ '_') :
    radix.positional (digits ++ [c]) = radix.positional digits * radix.base + (radix.digit? c).getD 0 := by
  simp [positional, List.foldl_append, hc]

theorem positional_append_underscore (radix : Radix) (digits : List Char) :
    radix.positional (digits ++ ['_']) = radix.positional digits := by
  simp [positional, List.foldl_append]

end Radix

/-- Reads an integer literal with its lead. A fault leaves the value zero. -/
def readInteger (radix : Radix) (raw : List Char) : UInt64 × Option LexCause :=
  let digits := raw.drop radix.lead.length
  match radix.flaw? digits with
  | some flaw => (0, some (.malformedNumber (String.ofList raw) flaw))
  | none =>
    let value := radix.positional digits
    if value < UInt64.size then (UInt64.ofNat value, none)
    else (0, some (.numberOverflow (String.ofList raw)))

/-- Reads a decimal with a point. Digits must stand before the point and may after it. -/
def readDecimal (raw : List Char) : Float × Option LexCause :=
  let whole := raw.takeWhile (· != '.')
  let fraction := (raw.dropWhile (· != '.')).drop 1
  let flaw? := (Radix.decimal.flaw? whole).or (if fraction.isEmpty then none else Radix.decimal.flaw? fraction)
  match flaw? with
  | some flaw => (0, some (.malformedNumber (String.ofList raw) flaw))
  | none =>
    let places := (fraction.filter (· != '_')).length
    (Float.ofScientific (Radix.decimal.positional (whole ++ fraction)) true places, none)

end JuiceSyntax
