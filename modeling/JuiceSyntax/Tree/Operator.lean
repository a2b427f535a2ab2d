/-
  Operators of expressions and types, and the levels at which binary ones bind. A higher level
  binds tighter; operators of one level group to the left.
-/
import JuiceSyntax.Token.Basic

namespace JuiceSyntax

inductive UnaryOp where
  | not | neg
deriving DecidableEq, Repr, Inhabited

namespace UnaryOp

def symbol : UnaryOp → String
  | not => "!"
  | neg => "-"

def ofKind? : Kind → Option UnaryOp
  | .mark .bang => some not
  | .mark .minus => some neg
  | _ => none

end UnaryOp

inductive BinaryOp where
  | add | sub | bitAnd | bitOr | bitXor | mod | and | or
  | mul | div | pow
  | eq | ne | lt | gt | le | ge
  | shl | shr
deriving DecidableEq, Repr, Inhabited

namespace BinaryOp

def ofMark? : Mark → Option BinaryOp
  | .plus => some add
  | .minus => some sub
  | .amp => some bitAnd
  | .pipe => some bitOr
  | .caret => some bitXor
  | .percent => some mod
  | .ampAmp => some and
  | .pipePipe => some or
  | .star => some mul
  | .slash => some div
  | .starStar => some pow
  | .eqEq => some eq
  | .bangEq => some ne
  | .lt => some lt
  | .gt => some gt
  | .ltEq => some le
  | .gtEq => some ge
  | .shl => some shl
  | .shr => some shr
  | _ => none

def ofKind? : Kind → Option BinaryOp
  | .mark mark => ofMark? mark
  | _ => none

/-- How tightly the operator binds. -/
def level : BinaryOp → Nat
  | add | sub | bitAnd | bitOr | bitXor | mod | and | or => 1
  | mul | div | pow => 2
  | eq | ne | lt | gt | le | ge => 3
  | shl | shr => 4

def symbol : BinaryOp → String
  | add => "+"
  | sub => "-"
  | bitAnd => "&"
  | bitOr => "|"
  | bitXor => "^"
  | mod => "%"
  | and => "&&"
  | or => "||"
  | mul => "*"
  | div => "/"
  | pow => "**"
  | eq => "=="
  | ne => "!="
  | lt => "<"
  | gt => ">"
  | le => "<="
  | ge => ">="
  | shl => "<<"
  | shr => ">>"

end BinaryOp

/-- Operators of types, both of one level. -/
inductive TypeOp where
  | union | intersection
deriving DecidableEq, Repr, Inhabited

namespace TypeOp

def symbol : TypeOp → String
  | union => "|"
  | intersection => "&"

def ofKind? : Kind → Option TypeOp
  | .mark .pipe => some union
  | .mark .amp => some intersection
  | _ => none

end TypeOp

/-- The types that names stand for in every program. -/
inductive BuiltinType where
  | string | int | float | list | unit
deriving DecidableEq, Repr, Inhabited

namespace BuiltinType

def name : BuiltinType → String
  | string => "string"
  | int => "int"
  | float => "float"
  | list => "list"
  | unit => "unit"

def ofName? (text : String) : Option BuiltinType :=
  [string, int, float, list, unit].find? fun b => b.name == text

end BuiltinType

end JuiceSyntax
