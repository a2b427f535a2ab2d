/-
  Blocks and the statements in them. A statement that fails is recorded and the block goes on
  with the next one.
-/
import JuiceSyntax.Grammar.Expression

namespace JuiceSyntax.Grammar

open Reader

/-- `name := value` or `name: T = value`, the value in its place. -/
structure Binding where
  name : String
  nameSpan : Span
  type : Option TypeExpr
  value : Expr

/-- `name :=` or `name:` -/
def startsDeclaration (c : Cursor) : Bool :=
  match c.kind, c.peek 1 with
  | .name _, .mark .colonEq | .name _, .mark .colon => true
  | _, _ => false

/-- `name =` -/
def startsAssignment (c : Cursor) : Bool :=
  match c.kind, c.peek 1 with
  | .name _, .mark .eq => true
  | _, _ => false

/-- An expression can begin with this kind. -/
def startsExpr : Kind → Bool
  | .int _ _ | .float _ | .str _ _ | .bool _ | .name _ | .typeName _ | .macroName _ => true
  | .mark .lBracket | .mark .lParen | .mark .lBrace | .mark .minus | .mark .bang => true
  | .word .fnWord | .word .staticWord | .word .ifWord | .word .matchWord => true
  | _ => false

def binding : Reader Binding := do
  let (text, span) ← name
  let declared ←
    if ← takeMark .colon then do
      let declared ← type
      unless ← takeMark .eq do
        failUnexpected (.mark .eq)
      pure (some declared)
    else do
      let _ ← needMark .colonEq
      pure none
  return ⟨text, span, declared, ← expr .value⟩

def assignment : Reader Binding := do
  let (text, span) ← name
  let _ ← needMark .eq
  return ⟨text, span, none, ← expr .value⟩

/-- `for { }`, `for range { }` or `for x of range { }`, where a range is a value or `a..b`. -/
def loop : Reader StatementKind := do
  let _ ← needWord .forWord
  if ← atMark .lBrace then
    return .loop none .endless (← block)
  let element ← match ← kind, ← peek 1 with
    | .name text, .word .ofWord => do
      skip 2
      pure (some text)
    | _, _ => pure none
  let first ← expr .head
  let range ← if ← takeMark .dotDot then .between first <$> expr .head else pure (.over first)
  return .loop element range (← block)

/-- `return` with a value, unless the next statement begins there. -/
def leave : Reader StatementKind := do
  let _ ← advance
  let c ← cursor
  if startsExpr c.kind && !startsDeclaration c && !startsAssignment c then
    return .leave (some (← expr .value))
  else
    return .leave none

def statementKind : Reader StatementKind := do
  match ← kind with
  | .word .returnWord => leave
  | .word .breakWord =>
    let _ ← advance
    return .stop
  | .word .continueWord =>
    let _ ← advance
    return .next
  | .word .forWord => loop
  | .word .fnWord | .word .staticWord => return .fn (← fnDecl)
  | .mark .lBrace => return .block (← block)
  | .word .loopWord => throw (.ofCause (← here) (.reserved .loopWord))
  | .word .awaitWord => throw (.ofCause (← here) (.reserved .awaitWord))
  | .word .importWord => failAdvised .statement (.topLevelWord .importWord)
  | .word .foreignWord => failAdvised .statement (.topLevelWord .foreignWord)
  | .word .typeWord => failAdvised .statement (.topLevelWord .typeWord)
  | .word .implWord => failAdvised .statement (.topLevelWord .implWord)
  | .word .exportWord => failAdvised .statement (.topLevelWord .exportWord)
  | .name _ =>
    let c ← cursor
    if startsDeclaration c then
      let b ← binding
      return .binding b.name b.nameSpan b.type b.value
    else if startsAssignment c then
      let b ← assignment
      return .assignment b.name b.nameSpan b.value
    else
      return .expr (← expr .statement)
  | .typeName _ =>
    if (← peek 1).isMark .colonEq then
      failAdvised .statement .topLevelType
    else
      return .expr (← expr .statement)
  | _ => return .expr (← expr .statement)

def statement : Reader Statement := do
  let start ← here
  let content ← statementKind
  return ⟨content, ← spanFrom start⟩

/-- `{ statements }`. At the end of the tokens the missing brace is recorded and the statements
are kept. -/
def blockBody : Reader Block := do
  let opening ← needMark .lBrace
  let statements ← recovering .statement (·.isMark .rBrace) statement
  if ← atMark .rBrace then
    let closing := (← advance).span
    return ⟨statements, opening.cover closing⟩
  let fault := .ofCause (← here) (.missing (.mark .rBrace) (← kind) none)
  if (← atEnd) && !(← halted) then
    record fault
    return ⟨statements, opening.cover (← here)⟩
  throw fault

end JuiceSyntax.Grammar
