/-
  Functions, with or without a name, and the parameters that they share with constructors.
-/
import JuiceSyntax.Grammar.Recovery

namespace JuiceSyntax.Grammar

open Reader

/-- A name, with its span. -/
def name : Reader (String × Span) := do
  match ← kind with
  | .name text => return (text, (← advance).span)
  | _ => failUnexpected .name

/-- A name of a value or of a type, with its span. -/
def anyName : Reader (String × Span) := do
  match ← kind with
  | .name text | .typeName text => return (text, (← advance).span)
  | _ => failUnexpected .name

/-- `name` or `name: T`, where `named` reads the name. -/
def param (named : Reader (String × Span)) : Reader Param := do
  let (text, span) ← named
  if ← takeMark .colon then
    let declared ← type
    return ⟨text, some declared, span.cover declared.span⟩
  else
    return ⟨text, none, span⟩

/-- `(name, name: T)` -/
def params (named : Reader (String × Span)) : Reader (List Param) := do
  let _ ← needMark .lParen
  let items ← separated .rParen (param named)
  let _ ← needMark .rParen
  return items

def fnName : Reader (Option FnName) := do
  match ← kind with
  | .name text => return some ⟨text, false, (← advance).span⟩
  | .macroName text => return some ⟨text, true, (← advance).span⟩
  | _ => return none

/-- `[static] fn [name | name!] [(params)] [-> T] { body }` -/
def fnDecl : Reader FnDecl := do
  let start ← here
  let isStatic ← takeWord .staticWord
  let _ ← needWord .fnWord
  let title ← fnName
  let items ← if ← atMark .lParen then params name else pure []
  let result ← if ← takeMark .arrow then some <$> type else pure none
  let body ← block
  return ⟨isStatic, title, items, result, body, ← spanFrom start⟩

end JuiceSyntax.Grammar
