/-
  Literals: numbers, strings with the fragments in them, and lists.
-/
import JuiceSyntax.Grammar.Recovery

namespace JuiceSyntax.Grammar

open Reader

/-- The expression in a fragment, which has to be the whole of it. -/
def fragment (tokens : List Token) (span : Span) : Reader Expr := do
  if tokens.all (·.kind.isDone) then
    throw (.ofCause span (.unexpected .expression (.mark .rBrace) (some .emptyFragment)))
  withTokens tokens do
    let inner ← expr .value
    unless ← atEnd do
      failAdvised .fragmentEnd .oneExpressionInFragment
    return inner

/-- The segments of a string. -/
def segments : List Piece → Reader (List Segment)
  | [] => return []
  | .text text span :: rest => return .text text span :: (← segments rest)
  | .escape value raw span :: rest => return .escape value raw span :: (← segments rest)
  | .fragment tokens span :: rest => do
    let inner ← fragment tokens span
    return .fragment inner span :: (← segments rest)
  | .indent _ :: rest => segments rest

def indentSpans (pieces : List Piece) : List Span :=
  pieces.filterMap fun
    | .indent span => some span
    | _ => none

/-- A string, whose token is consumed whatever its fragments hold. -/
def stringLiteral (multiline : Bool) (pieces : List Piece) : Reader Expr := do
  let token ← advance
  let layout := if multiline then .lines (indentSpans pieces) else .inline
  return ⟨.str (← segments pieces) layout, token.span⟩

/-- `[a, b]` -/
def listLiteral : Reader Expr := do
  let opening ← needMark .lBracket
  let items ← separated .rBracket (expr .value)
  let closing ← needMark .rBracket
  return ⟨.list items, opening.cover closing⟩

/-- An expression of the current token alone. -/
def atom (kind : ExprKind) : Reader Expr := do
  let token ← advance
  return ⟨kind, token.span⟩

/-- `label:` before an argument. The words `of` and `as` can be labels. -/
def argLabel : Reader (Option String) := do
  let label? := match ← kind with
    | .name text | .typeName text => some text
    | .word .ofWord => some "of"
    | .word .asWord => some "as"
    | _ => none
  match label?, ← peek 1 with
  | some label, .mark .colon =>
    skip 2
    return some label
  | _, _ => return none

end JuiceSyntax.Grammar
