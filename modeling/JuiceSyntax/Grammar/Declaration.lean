/-
  Statements of the program: imports, functions, types, implementations, bindings and
  assignments.
-/
import JuiceSyntax.Grammar.Statement

namespace JuiceSyntax.Grammar

open Reader

/-! ## Imports -/

/-- `.name` again and again. -/
def pathRestUpTo : Nat → Reader (List String)
  | 0 => return []
  | fuel + 1 => do
    if ← takeMark .dot then
      let (text, _) ← anyName
      return text :: (← pathRestUpTo fuel)
    else
      return []

def exposed : Reader Exposed := do
  match ← kind with
  | .name text | .typeName text => return ⟨text, false, (← advance).span⟩
  | .macroName text => return ⟨text, true, (← advance).span⟩
  | _ => failUnexpected .name

/-- `[foreign] import [.]a.b [as c] [(x, y!)]` -/
def importDecl : Reader Import := do
  let foreign ← takeWord .foreignWord
  let _ ← needWord .importWord
  let relative ← takeMark .dot
  let (first, _) ← anyName
  let rest ← pathRestUpTo (← tokensLeft)
  let renamed ← if ← takeWord .asWord then (some ·.1) <$> anyName else pure none
  let names ←
    if ← takeMark .lParen then do
      let names ← separated .rParen exposed
      let _ ← needMark .rParen
      pure names
    else
      pure []
  return ⟨foreign, relative, first :: rest, renamed, names⟩

/-! ## Types -/

/-- A field or a constructor, before it is known whether the type has the like. -/
inductive Member where
  | field (field : Field)
  | constructor (constructor : Constructor)

/-- `name: T` or `Name[(params)]` -/
def member : Reader Member := do
  let c ← cursor
  let span := c.span
  match c.kind, c.peek 1 with
  | .name text, .mark .colon | .typeName text, .mark .colon =>
    skip 2
    let declared ← type
    return .field ⟨text, declared, span.cover declared.span⟩
  | .typeName text, _ =>
    let _ ← advance
    let items ← if ← atMark .lParen then params name else pure []
    return .constructor ⟨text, items, ← spanFrom span⟩
  | _, _ => failAdvised .member .memberForms

/-- Adds a member. The first one decides whether the type has fields or constructors; one that
does not fit is recorded as a fault and left out. -/
def addMember : Option TypeBody → Member → Reader (Option TypeBody)
  | some (.fields fields), .field field => return some (.fields (fields ++ [field]))
  | some (.constructors constructors), .constructor constructor =>
    return some (.constructors (constructors ++ [constructor]))
  | some (.fields fields), .constructor constructor => do
    record (.ofCause constructor.span (.mixedMembers true))
    return some (.fields fields)
  | some (.constructors constructors), .field field => do
    record (.ofCause field.span (.mixedMembers false))
    return some (.constructors constructors)
  | _, .field field => return some (.fields [field])
  | _, .constructor constructor => return some (.constructors [constructor])

/-- Members up to the closing brace, with a comma after any of them. -/
def membersUpTo (body : Option TypeBody) : Nat → Reader (Option TypeBody)
  | 0 => return body
  | fuel + 1 => do
    if ← atMark .rBrace then
      return body
    let body ← addMember body (← member)
    let _ ← takeMark .comma
    membersUpTo body fuel

/-- `{ name: T ... }` or `{ Name(params) ... }` -/
def members : Reader TypeBody := do
  let _ ← needMark .lBrace
  let body ← membersUpTo none (← tokensLeft)
  let _ ← needMark .rBrace
  return body.getD (.fields [])

/-- The name that is declared; after the word `type` it may be of either case. -/
def declaredType (keyword : Bool) : Reader (String × Span) := do
  if keyword then
    anyName
  else
    match ← kind with
    | .typeName text => return (text, (← advance).span)
    | _ => failUnexpected .typeName

/-- `[type] Name [(params)] := body` -/
def typeDecl : Reader TypeDecl := do
  let keyword ← takeWord .typeWord
  let (text, span) ← declaredType keyword
  let items ← if ← atMark .lParen then params anyName else pure []
  let _ ← needMark .colonEq
  let body ← if ← atMark .lBrace then members else .synonym <$> type
  return ⟨keyword, text, span, items, body⟩

/-! ## Implementations -/

/-- A function, which is all that may stand here. -/
def implFn : Reader FnDecl := do
  match ← kind with
  | .word .fnWord | .word .staticWord => fnDecl
  | _ => failUnexpected (.word .fnWord)

/-- `impl T { fns }` or `impl Trait for T { fns }` -/
def implDecl : Reader Impl := do
  let _ ← needWord .implWord
  let first ← type
  let (traitType, selfType) ←
    if ← takeWord .forWord then do
      let second ← type
      pure (some first, second)
    else
      pure (none, first)
  let _ ← needMark .lBrace
  let fns ← recovering .fn (·.isMark .rBrace) implFn
  let _ ← needMark .rBrace
  return ⟨traitType, selfType, fns⟩

/-! ## Items -/

/-- `Name :=` or `Name(` -/
def startsTypeDecl (c : Cursor) : Bool :=
  match c.kind, c.peek 1 with
  | .typeName _, .mark .colonEq | .typeName _, .mark .lParen => true
  | _, _ => false

/-- What may follow `export`. -/
def startsExportable (c : Cursor) : Bool :=
  match c.kind with
  | .word .fnWord | .word .staticWord | .word .typeWord => true
  | _ => startsTypeDecl c || startsDeclaration c

def itemKind : Reader ItemKind := do
  let c ← cursor
  match c.kind with
  | .word .importWord | .word .foreignWord => return .imports (← importDecl)
  | .word .fnWord | .word .staticWord => return .fn (← fnDecl)
  | .word .typeWord => return .type (← typeDecl)
  | .word .implWord => return .impl (← implDecl)
  | .word .loopWord => throw (.ofCause c.span (.reserved .loopWord))
  | .word .awaitWord => throw (.ofCause c.span (.reserved .awaitWord))
  | .name _ =>
    if startsDeclaration c then
      let b ← binding
      return .binding b.name b.nameSpan b.type b.value
    else if startsAssignment c then
      let b ← assignment
      return .assignment b.name b.nameSpan b.value
    else
      throw (.ofCause (c.peekSpan 1) (.unexpected .declarationSign (c.peek 1) none))
  | _ => if startsTypeDecl c then return .type (← typeDecl) else failUnexpected .declaration

/-- `[export] declaration` -/
def item : Reader Item := do
  let start ← here
  let exported ← takeWord .exportWord
  let c ← cursor
  if exported && !startsExportable c then
    throw (.ofCause (start.cover c.span) (.exportWithoutDeclaration c.kind))
  let content ← itemKind
  return ⟨content, exported, ← spanFrom start⟩

end JuiceSyntax.Grammar
