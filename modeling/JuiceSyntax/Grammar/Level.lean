/-
  The grammar tied together, level by level. A reader at a level with `n` levels below it may
  nest `n` deep; at the innermost level every call is the fault that the nesting is too deep.
  Every cycle of the grammar goes one level down, so the levels bound the depth of reading.
-/
import JuiceSyntax.Grammar.Declaration

namespace JuiceSyntax

open Reader Grammar

/-- How tightly the operators of an operand of a prefix operator bind at least. -/
def operandLevel : Nat := 2

/-- What a reader has besides the levels below it. -/
structure Setting where
  source : List Char
  options : Options
  /-- Whether braces that failed before are passed over at once. -/
  remember : Bool

def tooDeep (limit : Nat) : Step α := fun s =>
  .error (.ofCause s.cursor.span (.nestingTooDeep limit)) s

/-- The level with this many levels below it. -/
def level (setting : Setting) : Nat → Level
  | 0 =>
    { source := setting.source
      options := setting.options
      remember := setting.remember
      expr := fun _ => tooDeep setting.options.maxDepth
      operand := fun _ => tooDeep setting.options.maxDepth
      block := tooDeep setting.options.maxDepth
      type := tooDeep setting.options.maxDepth
      record := tooDeep setting.options.maxDepth }
  | n + 1 =>
    { source := setting.source
      options := setting.options
      remember := setting.remember
      expr := fun position s => chain 1 position (level setting n) s
      operand := fun position s => chain operandLevel position (level setting n) s
      block := fun s => blockBody (level setting n) s
      type := fun s => typeExpr (level setting n) s
      record := fun s => recordExpr (level setting n) s }

/-- The items of a program; a fault in one does not stop the others. -/
def items : Reader (List Item) := recovering .item (fun _ => false) item

/-- An expression with nothing after it. -/
def wholeExpr : Reader (Option Expr) := do
  match ← attempt (expr .value) with
  | .ok e =>
    if ← atEnd then
      return some e
    record (← unexpected .endOfInput none)
    return none
  | .error fault =>
    record fault
    return none

/-- Runs a reader that ends in no fault of its own. -/
def Reader.run (setting : Setting) (tokens : List Token) (reader : Reader α) : Except Fault α × State :=
  match reader (level setting setting.options.maxDepth) (.ofTokens tokens) with
  | .ok a s => (.ok a, s)
  | .error fault s => (.error fault, s)

/-- What was read, with the faults in the order in which they were recorded. -/
structure Reading (α : Type) where
  value : α
  faults : List Fault
  /-- What is between the braces of each macro body. -/
  macroBodies : List Span

def readItems (setting : Setting) (tokens : List Token) : Reading (List Item) :=
  match items.run setting tokens with
  | (.ok value, s) => ⟨value, s.faults, s.macroBodies⟩
  | (.error _, s) => ⟨[], s.faults, s.macroBodies⟩

def readExpr (setting : Setting) (tokens : List Token) : Reading (Option Expr) :=
  match wholeExpr.run setting tokens with
  | (.ok value, s) => ⟨value, s.faults, s.macroBodies⟩
  | (.error _, s) => ⟨none, s.faults, s.macroBodies⟩

end JuiceSyntax
