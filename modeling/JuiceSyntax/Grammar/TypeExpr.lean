/-
  Types: atoms joined by `|` and `&`, which group to the left.
-/
import JuiceSyntax.Grammar.Literal

namespace JuiceSyntax.Grammar

open Reader

/-- `[label:] type` -/
def typeArg : Reader TypeArg := do
  let start ← here
  let label ← argLabel
  let value ← type
  return ⟨label, value, start.cover value.span⟩

/-- `(label: T, U)` after a name. -/
def typeCall (callee : String) (calleeSpan : Span) : Reader TypeExpr := do
  let _ ← needMark .lParen
  let args ← separated .rParen typeArg
  let closing ← needMark .rParen
  return ⟨.call callee calleeSpan args, calleeSpan.cover closing⟩

/-- `(T)` groups, `(T, U)` is a tuple. -/
def typeParens : Reader TypeExpr := do
  let opening ← needMark .lParen
  if ← atMark .rParen then
    failAdvised .type .emptyTypeParens
  let first ← type
  if ← takeMark .comma then
    if ← atMark .rParen then
      let span := opening.cover (← advance).span
      record (.ofCause span .singleElementTuple)
      return ⟨.group first, span⟩
    let rest ← separated .rParen type
    let closing ← needMark .rParen
    return ⟨.tuple (first :: rest), opening.cover closing⟩
  else
    let closing ← needMark .rParen
    return ⟨.group first, opening.cover closing⟩

/-- A name, with arguments if a parenthesis follows. -/
def typeOfName (text : String) (kind : TypeKind) : Reader TypeExpr := do
  let span := (← advance).span
  if ← atMark .lParen then
    typeCall text span
  else
    return ⟨kind, span⟩

def literalType (literal : Reader Expr) : Reader TypeExpr := do
  let value ← literal
  return ⟨.literal value, value.span⟩

def typeAtom : Reader TypeExpr := do
  match ← kind with
  | .name text => typeOfName text ((BuiltinType.ofName? text).elim (.name text) .builtin)
  | .typeName text => typeOfName text (.typeName text)
  | .int value radix => literalType (atom (.int value radix))
  | .float value => literalType (atom (.float value))
  | .bool value => literalType (atom (.bool value))
  | .str multiline pieces => literalType (stringLiteral multiline pieces)
  | .mark .lBracket => literalType listLiteral
  | .mark .lParen => typeParens
  | _ => failUnexpected .type

def typeRestUpTo (left : TypeExpr) : Nat → Reader TypeExpr
  | 0 => return left
  | fuel + 1 => do
    match TypeOp.ofKind? (← kind) with
    | some op =>
      let _ ← advance
      let right ← typeAtom
      typeRestUpTo ⟨.binary op left right, left.span.cover right.span⟩ fuel
    | none => return left

def typeExpr : Reader TypeExpr := do
  let first ← typeAtom
  typeRestUpTo first (← tokensLeft)

end JuiceSyntax.Grammar
