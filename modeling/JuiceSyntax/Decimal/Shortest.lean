/-
  The shortest decimal that reads back as a double. A positive finite double is `m · 2 ^ q`;
  the reals nearer to it than to any other double form an interval, ends included iff `m` is
  even. For one digit, two digits and so on, the two neighbours of the value on that decimal
  grid are tried: the first grid with a neighbour in the interval wins, of two the nearer one,
  and the upper one when they are equally near.
-/

namespace JuiceSyntax

/-- The number `digits · 10 ^ exponent`. -/
structure Decimal where
  digits : Nat
  exponent : Int
deriving DecidableEq, Repr, Inhabited

/-- The number `mantissa · 2 ^ exponent`, of a double. `narrow` if the next double below is
only half as far away as the next above. -/
structure Binary where
  mantissa : Nat
  exponent : Int
  narrow : Bool
deriving DecidableEq, Repr, Inhabited

namespace Binary

/-- The magnitude in the bits of a finite double. -/
def ofBits (bits : UInt64) : Binary :=
  let raw := bits.toNat % Nat.pow 2 63
  let fraction := raw % Nat.pow 2 52
  match raw / Nat.pow 2 52 with
  | 0 => ⟨fraction, -1074, false⟩
  | e => ⟨Nat.pow 2 52 + fraction, (e : Int) - 1075, fraction == 0 && decide (1 < e)⟩

end Binary

/-- A value and the ends of the interval that rounds to it, as multiples of `1 / scale`. -/
structure Rounding where
  value : Nat
  low : Nat
  high : Nat
  scale : Nat
  closed : Bool
deriving DecidableEq, Repr, Inhabited

namespace Rounding

def ofBinary (b : Binary) : Rounding :=
  let e := b.exponent - 2
  let factor := Nat.pow 2 e.toNat
  let m := 4 * b.mantissa
  ⟨m * factor, (m - if b.narrow then 1 else 2) * factor, (m + 2) * factor, Nat.pow 2 (-e).toNat,
    b.mantissa % 2 == 0⟩

/-- The same in units of `10 ^ exponent`. -/
def inUnits (r : Rounding) (exponent : Int) : Rounding :=
  let up := Nat.pow 10 (-exponent).toNat
  ⟨r.value * up, r.low * up, r.high * up, r.scale * Nat.pow 10 exponent.toNat, r.closed⟩

def contains (r : Rounding) (n : Nat) : Bool :=
  let x := n * r.scale
  decide (r.low < x ∧ x < r.high) || (r.closed && (x == r.low || x == r.high))

/-- The neighbour of the value among the whole numbers that rounds to it. -/
def neighbour? (r : Rounding) : Option Nat :=
  let below := r.value / r.scale
  let above := below + 1
  match r.contains below, r.contains above with
  | true, true => some (if 2 * (r.value - below * r.scale) < r.scale then below else above)
  | true, false => some below
  | false, true => some above
  | false, false => none

/-- The exponent of ten of the first digit of the value. -/
def magnitude (r : Rounding) : Int :=
  if r.scale ≤ r.value then ((Nat.toDigits 10 (r.value / r.scale)).length : Int) - 1
  else -(((List.range 400).find? fun j => decide (r.scale ≤ r.value * Nat.pow 10 j)).getD 0 : Int)

end Rounding

/-- Without zeros at the end of the digits. -/
def Decimal.trim : Nat → Decimal → Decimal
  | 0, d => d
  | fuel + 1, d =>
    if d.digits % 10 == 0 && d.digits != 0 then Decimal.trim fuel ⟨d.digits / 10, d.exponent + 1⟩ else d

/-- The shortest decimal that rounds to a positive value. Seventeen digits always do. -/
def Rounding.shortest (r : Rounding) : Decimal :=
  let top := r.magnitude
  let hit? := (List.range 17).findSome? fun (i : Nat) =>
    let e := top - i
    ((r.inUnits e).neighbour?).map fun n => Decimal.mk n e
  (hit?.getD ⟨0, 0⟩).trim 20

/-- Where digits are written out and where with an exponent. -/
structure Notation where
  /-- The least exponent of the first digit that is written out. -/
  least : Int
  /-- The greatest such exponent. -/
  greatest : Int
deriving DecidableEq, Repr, Inhabited

/-- A literal is written out, with at least one digit on each side of the point, from `1e-4` up
to and without `1e16`. -/
def literalNotation : Notation := ⟨-4, 15⟩

namespace Decimal

def zeros (n : Int) : String := String.ofList (List.replicate n.toNat '0')

def write (style : Notation) (d : Decimal) : String :=
  let digits := toString d.digits
  let n : Int := digits.length
  let top := d.exponent + n - 1
  if style.least ≤ top ∧ top ≤ style.greatest then
    if top < 0 then "0." ++ zeros (-top - 1) ++ digits
    else if d.exponent ≥ 0 then digits ++ zeros d.exponent ++ ".0"
    else
      let cs := digits.toList
      let whole := (top + 1).toNat
      String.ofList (cs.take whole) ++ "." ++ String.ofList (cs.drop whole)
  else
    let rest := String.ofList (digits.toList.drop 1)
    let point := if rest.isEmpty then "" else "."
    String.ofList (digits.toList.take 1) ++ point ++ rest ++ "e" ++ toString top

end Decimal

/-- The text of the value of a float literal, which is never negative. -/
def floatText (x : Float) : String :=
  if x == 0 then "0.0"
  else if x.isFinite then (Rounding.ofBinary (.ofBits x.toBits)).shortest.write literalNotation
  else "inf"

end JuiceSyntax
