/-
  Diagnostics of faults, one for each, and of a whole document in the order of their places.
-/
import JuiceSyntax.Diagnostic.Basic
import JuiceSyntax.Document

namespace JuiceSyntax

namespace LexCause

def code : LexCause → String
  | unexpectedChar _ => "E0001"
  | unterminatedString => "E0002"
  | invalidEscape _ => "E0003"
  | malformedNumber _ _ => "E0004"
  | numberOverflow _ => "E0005"
  | fragmentTooDeep => "E0006"

def label : LexCause → String
  | unexpectedChar _ => "unexpected character"
  | unterminatedString => "string starts here"
  | invalidEscape _ => "unknown escape"
  | malformedNumber _ _ => "malformed number"
  | numberOverflow _ => "too large"
  | fragmentTooDeep => "too deep"

end LexCause

def LexFault.diagnostic (f : LexFault) : Diagnostic where
  severity := .error
  code := some f.cause.code
  message := f.cause.message
  labels := [⟨f.span, .primary, some f.cause.label⟩]
  notes := []
  help := f.cause.hint
  expected := []
  recoverable := true

def Cause.code : Cause → String
  | unexpected _ _ _ => "E0100"
  | missing _ _ _ => "E0101"
  | unresolvable => "E0102"
  | reserved _ => "E0103"
  | exportWithoutDeclaration _ => "E0104"
  | mixedMembers _ => "E0200"
  | singleElementTuple => "E0201"
  | nestingTooDeep _ => "E0300"
  | tooManyFaults _ => "E0301"

/-- The label on a place by what would have been accepted there. -/
def expectedLabel : List String → String
  | [] => "here"
  | [one] => "expected " ++ one
  | many => "expected one of " ++ ", ".intercalate many

def Fault.diagnostic (f : Fault) : Diagnostic where
  severity := .error
  code := some f.cause.code
  message := f.cause.message
  labels :=
    ⟨f.span, .primary, some (expectedLabel f.cause.accepted)⟩ ::
      (f.skipped.map fun span => ⟨span, .secondary, some "skipped"⟩).toList
  notes := if f.isFatal then ["parsing stopped here"] else []
  help := f.cause.hint?
  expected := f.cause.accepted
  recoverable := !f.isFatal

/-- The place of a diagnostic; one without a place comes after all others. -/
def Diagnostic.comesBefore (a b : Diagnostic) : Bool :=
  match a.primary?, b.primary? with
  | some a, some b => decide (a.start ≤ b.start)
  | some _, none => true
  | none, some _ => false
  | none, none => true

/-- The diagnostics of a document by their places; at one place the lexical ones come first,
and then in the order in which the faults were recorded. -/
def Document.diagnostics (d : Document) : List Diagnostic :=
  (d.lexFaults.map LexFault.diagnostic ++ d.faults.map Fault.diagnostic).mergeSort Diagnostic.comesBefore

end JuiceSyntax
