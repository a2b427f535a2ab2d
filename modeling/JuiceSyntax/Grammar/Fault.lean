/-
  Faults of the grammar: what can be wrong with a token list. A fault is a cause with its
  place; what would have been accepted, the message and the hint all follow from the cause.
-/
import JuiceSyntax.Token.Basic

namespace JuiceSyntax

/-- What the grammar wanted where it found something else. -/
inductive Wanted where
  | mark (mark : Mark)
  | word (word : Keyword)
  | name
  | typeName
  | expression
  | type
  | statement
  /-- A statement of the program. -/
  | declaration
  /-- What follows a name at the start of a declaration. -/
  | declarationSign
  | member
  | operator
  | endOfInput
  | macroArguments
  | fragmentEnd
  | recordBreak
deriving DecidableEq, Repr, Inhabited

namespace Wanted

def text : Wanted → String
  | mark m => s!"'{m.text}'"
  | word w => s!"'{w.text}'"
  | name => "a name"
  | typeName => "a type name"
  | expression => "expression"
  | type => "type"
  | statement => "a statement"
  | declaration => "a declaration"
  | declarationSign => "':=', ':' or '='"
  | member => "a field or constructor"
  | operator => "an operator"
  | endOfInput => "end of input"
  | macroArguments => "'(' or '\x7b' after a macro name"
  | fragmentEnd => "'\x7d' to close the interpolation"
  | recordBreak => "',' or '\x7d'"

/-- What is said about `found` in its place. -/
def message (wanted : Wanted) (found : Kind) : String :=
  match wanted, found with
  | mark .rBrace, .done => "Unclosed '\x7b' - missing '\x7d'"
  | mark .rParen, .done => "Unclosed '(' - missing ')'"
  | mark .rBracket, .done => "Unclosed '[' - missing ']'"
  | mark .lBrace, _ => "Expected '\x7b' to start block, found " ++ found.shown
  | mark .rBrace, _ => "Expected '\x7d' to close block, found " ++ found.shown
  | name, _ => "Expected name, found " ++ found.shown
  | _, _ => "Expected " ++ wanted.text ++ ", found " ++ found.shown

def hint? (wanted : Wanted) (found : Kind) : Option String :=
  match wanted, found with
  | declarationSign, .mark .lParen => some "calls are only allowed inside function bodies"
  | declarationSign, _ => some "declare with 'name := value' or assign with 'name = value'"
  | declaration, .macroName _ => some "macro calls are only allowed inside function bodies"
  | declaration, _ => some "start with 'fn', 'type', 'impl', 'import' or 'name :='"
  | mark .lBrace, _ => some "blocks start with '\x7b'"
  | mark .rBrace, _ => some "every '\x7b' needs a matching '\x7d'"
  | mark .rParen, .done => some "add ')' to close the parenthesis"
  | mark .rBracket, .done => some "add ']' to close the bracket"
  | mark .eq, .mark .colonEq => some "with a type annotation, write 'name: Type = value'"
  | macroArguments, .mark .lBrace =>
    some "a macro body is not allowed here; wrap the call in parentheses"
  | macroArguments, _ => some "call a macro with 'name!(args)' or 'name!\x7b body \x7d'"
  | expression, .mark .lBrace =>
    some "a '\x7b' here starts a body; wrap record literals in parentheses"
  | expression, .mark .eq => some "put the value after '='"
  | expression, .done => some "the expression is incomplete"
  | expression, _ => some "try a value, variable, or function call"
  | name, .int _ _ => some "names can't start with a number"
  | name, .typeName _ => some "value names start with a lowercase letter"
  | name, _ => some "names start with a lowercase letter or '_'"
  | typeName, .name _ =>
    some "type names start with an uppercase letter, or use the 'type' keyword"
  | type, .mark .lBrace => some "record literals cannot be used as types"
  | type, _ => some "try a type like 'int', 'string', or a type name"
  | word .fnWord, _ => some "impl bodies may only contain functions"
  | _, _ => none

/-- What would have been accepted. -/
def accepted : Wanted → List String
  | declaration => ["'import'", "'fn'", "'type'", "'impl'", "a name"]
  | wanted => [wanted.text]

end Wanted

/-- Advice for a situation that the wanted and the found do not tell. -/
inductive Advice where
  | emptyParens
  | emptyTypeParens
  | emptyFragment
  | oneExpressionInFragment
  | openMacroBody
  | secondAttempt
  | misplacedAttempt
  | topLevelWord (word : Keyword)
  | topLevelType
  | memberForms
deriving DecidableEq, Repr, Inhabited

def Advice.text : Advice → String
  | emptyParens => "'()' is not a value; tuples need at least two elements"
  | emptyTypeParens => "use 'unit' for the empty type"
  | emptyFragment => "'$\x7b\x7d' needs an expression inside"
  | oneExpressionInFragment => "an interpolation holds a single expression"
  | openMacroBody => "the macro body is never closed"
  | secondAttempt => "'?' can only be applied once"
  | misplacedAttempt => "'?' only follows a literal, name, call, tuple or member access"
  | topLevelWord word => s!"'{word.text}' is only allowed at the top level"
  | topLevelType => "type declarations are only allowed at the top level"
  | memberForms => "write fields as 'name: Type' and constructors as 'Name(params)'"

/-- The causes of faults of the grammar. -/
inductive Cause where
  /-- Something else stands where one of several things could. -/
  | unexpected (wanted : Wanted) (found : Kind) (advice : Option Advice)
  /-- A token that has to stand here does not. -/
  | missing (wanted : Wanted) (found : Kind) (advice : Option Advice)
  /-- A brace that opens neither a record nor a block. -/
  | unresolvable
  | reserved (word : Keyword)
  | exportWithoutDeclaration (found : Kind)
  /-- Fields and constructors in one type; `fieldsFirst` if it began with fields. -/
  | mixedMembers (fieldsFirst : Bool)
  | singleElementTuple
  | nestingTooDeep (limit : Nat)
  | tooManyFaults (limit : Nat)

namespace Cause

def message : Cause → String
  | unexpected wanted found _ | missing wanted found _ => wanted.message found
  | unresolvable => "'\x7b' is neither a valid record literal nor a valid block"
  | reserved word => s!"'{word.text}' is reserved and cannot be used yet"
  | exportWithoutDeclaration found =>
    "'export' must be followed by a declaration, found " ++ found.label
  | mixedMembers true =>
    "this block started with 'field: Type' fields, so a 'Name(...)' constructor cannot follow"
  | mixedMembers false =>
    "this block started with 'Name(...)' constructors, so a 'field: Type' field cannot follow"
  | singleElementTuple => "a tuple needs at least two elements"
  | nestingTooDeep limit => s!"expression nested more than {limit} levels deep"
  | tooManyFaults limit => s!"stopped after {limit} errors"

def hint? : Cause → Option String
  | unexpected wanted found advice | missing wanted found advice =>
    (advice.map Advice.text).or (wanted.hint? found)
  | unresolvable => some "records hold 'name = value' or 'name' fields; blocks hold statements"
  | reserved _ => some "use 'for \x7b ... \x7d' for an endless loop"
  | exportWithoutDeclaration _ => some "only functions, types and 'name := value' can be exported"
  | mixedMembers _ => some "declare either all fields or all constructors"
  | singleElementTuple => some "remove the trailing ',' to group a single value"
  | nestingTooDeep _ => some "split the expression into named parts"
  | tooManyFaults _ => none

/-- What would have been accepted, if that is known. -/
def accepted : Cause → List String
  | unexpected wanted _ _ | missing wanted _ _ => wanted.accepted
  | exportWithoutDeclaration _ => ["'fn'", "'static'", "'type'", "a variable declaration"]
  | _ => []

/-- The name of the kind of fault. -/
def title : Cause → String
  | unexpected _ _ _ => "unexpected token"
  | missing _ _ _ => "missing token"
  | unresolvable => "'\x7b' is neither a record literal nor a block"
  | reserved _ => "reserved keyword"
  | exportWithoutDeclaration _ => "'export' must be followed by a declaration"
  | mixedMembers _ => "constructor styles are mixed"
  | singleElementTuple => "parenthesised single element is not a tuple"
  | nestingTooDeep _ => "nesting too deep"
  | tooManyFaults _ => "too many errors"

/-- The tokens fit the grammar, but what they say is ill-formed. -/
def isStructural : Cause → Bool
  | mixedMembers _ | singleElementTuple => true
  | _ => false

/-- Fatal faults end the reading. -/
def isFatal : Cause → Bool
  | nestingTooDeep _ | tooManyFaults _ => true
  | _ => false

end Cause

/-- A fault of the grammar. -/
structure Fault where
  cause : Cause
  span : Span
  /-- The text that recovery passed over. -/
  skipped : Option Span

namespace Fault

def ofCause (span : Span) (cause : Cause) : Fault := ⟨cause, span, none⟩

def isFatal (f : Fault) : Bool := f.cause.isFatal

def isStructural (f : Fault) : Bool := f.cause.isStructural

end Fault

end JuiceSyntax
