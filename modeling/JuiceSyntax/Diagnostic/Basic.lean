/-
  Diagnostics: what is said about a fault, with labels on the places it is about.
-/
import JuiceSyntax.Source.Span

namespace JuiceSyntax

inductive Severity where
  | error | warning
deriving DecidableEq, Repr, Inhabited

def Severity.text : Severity → String
  | error => "error"
  | warning => "warning"

/-- What a label is for. -/
inductive LabelRole where
  /-- Where the fault is. -/
  | primary
  /-- A place that has to do with it. -/
  | secondary
deriving DecidableEq, Repr, Inhabited

def LabelRole.text : LabelRole → String
  | primary => "primary"
  | secondary => "secondary"

structure Label where
  span : Span
  role : LabelRole
  message : Option String
deriving DecidableEq, Repr, Inhabited

structure Diagnostic where
  severity : Severity
  code : Option String
  message : String
  labels : List Label
  notes : List String
  help : Option String
  /-- What would have been accepted at the primary label. -/
  expected : List String
  /-- Reading went on after the fault. -/
  recoverable : Bool
deriving DecidableEq, Repr, Inhabited

/-- The span of the first primary label, or of the first label if none is primary. -/
def Diagnostic.primary? (d : Diagnostic) : Option Span :=
  ((d.labels.find? (·.role == .primary)).or d.labels.head?).map (·.span)

end JuiceSyntax
