/-
  Expressions: chains of operands with binary operators between them, prefix operators,
  postfix forms, atoms, and the choice between a record and a block where a brace opens.

  A chain is read whole and then grouped by the levels of its operators; `climb` is that
  grouping.
-/
import JuiceSyntax.Grammar.Function
import JuiceSyntax.Grammar.TypeExpr
import JuiceSyntax.Source.Bytes
import JuiceSyntax.Text.Blank

namespace JuiceSyntax.Grammar

open Reader

/-! ## Grouping -/

def binaryExpr (op : BinaryOp) (left right : Expr) : Expr :=
  ⟨.binary op left right, left.span.cover right.span⟩

/-- Joins `right` to the operands that wait for it, from the last, as long as their operators
bind at least as tightly as `level`. -/
def settle (level : Nat) : List (Expr × BinaryOp) → Expr → List (Expr × BinaryOp) × Expr
  | [], right => ([], right)
  | (left, op) :: waiting, right =>
    if level ≤ op.level then settle level waiting (binaryExpr op left right)
    else ((left, op) :: waiting, right)

/-- At the lowest level no operand waits any longer. -/
theorem settle_zero (waiting : List (Expr × BinaryOp)) (right : Expr) : (settle 0 waiting right).1 = [] := by
  induction waiting generalizing right with
  | nil => rfl
  | cons w waiting ih =>
    rw [settle, if_pos (Nat.zero_le _)]
    exact ih _

/-- Groups a chain. The operands that wait have operators of lower and lower level. -/
def climb : List (Expr × BinaryOp) → Expr → List (BinaryOp × Expr) → Expr
  | waiting, last, [] => (settle 0 waiting last).2
  | waiting, last, (op, next) :: rest =>
    let (waiting, left) := settle op.level waiting last
    climb ((left, op) :: waiting) next rest

/-! ## Arguments and macros -/

/-- `[label:] value` -/
def arg : Reader Arg := do
  let start ← here
  let label ← argLabel
  let value ← expr .value
  return ⟨label, value, start.cover value.span⟩

/-- `(arg, arg)`, with the span of the closing parenthesis. -/
def args : Reader (List Arg × Span) := do
  let _ ← needMark .lParen
  let items ← separated .rParen arg
  let closing ← needMark .rParen
  return (items, closing)

/-- The characters of a span of the document. -/
def sourceText (span : Span) : Reader (List Char) :=
  return (slice? (← read).source span).getD []

/-- `{ tokens }` after a macro, kept and not read. -/
def macroBody : Reader MacroBody := do
  let opening ← needMark .lBrace
  let following := (← cursor).rest
  let n := innerLength 0 following
  skip n
  if ← atEnd then
    throw (.ofCause (← here) (.missing (.mark .rBrace) .done (some .openMacroBody)))
  let closing := (← advance).span
  let inner : Span := ⟨opening.stop, closing.start⟩
  modify fun s => { s with macroBodies := s.macroBodies ++ [inner] }
  let text ← sourceText inner
  return ⟨opening.cover closing, inner, String.ofList (trim text), following.take n⟩

/-- `name!(args)`, `name!{ body }` or `name!(args){ body }`; before a body there is no macro
body. -/
def macroCall (text : String) (position : Position) : Reader Expr := do
  let span := (← advance).span
  let parenthesized ← atMark .lParen
  let (items, stop) ← if parenthesized then args else pure ([], span)
  if (← atMark .lBrace) && position != .head then
    let body ← macroBody
    return ⟨.macroCall text span parenthesized items (some body), span.cover body.span⟩
  else if parenthesized then
    return ⟨.macroCall text span true items none, span.cover stop⟩
  else
    failUnexpected .macroArguments

/-! ## Parentheses -/

/-- `(a)` groups, `(a, b)` is a tuple. -/
def parens : Reader Expr := do
  let opening ← needMark .lParen
  if ← atMark .rParen then
    failAdvised .expression .emptyParens
  let first ← expr .value
  if ← takeMark .comma then
    if ← atMark .rParen then
      let span := opening.cover (← advance).span
      record (.ofCause span .singleElementTuple)
      return ⟨.group first, span⟩
    let rest ← separated .rParen (expr .value)
    let closing ← needMark .rParen
    return ⟨.tuple (first :: rest), opening.cover closing⟩
  else
    let closing ← needMark .rParen
    return ⟨.group first, opening.cover closing⟩

/-! ## Braces -/

def blockExpr : Reader Expr := do
  let body ← block
  return ⟨.block body, body.span⟩

/-- `{ }`, `{ name,`, `{ name }` and `{ name =` can begin a record. -/
def looksLikeRecord (c : Cursor) : Bool :=
  match c.peek 1, c.peek 2 with
  | .mark .rBrace, _ => true
  | .name _, .mark .comma | .name _, .mark .rBrace | .name _, .mark .eq => true
  | _, _ => false

/-- Passes over a brace that opens neither a record nor a block, as if it were an empty
block. -/
def unresolvable : Reader Expr := do
  let start ← here
  skip (groupLength 0 (← cursor).rest)
  let span ← spanFrom start
  record (.ofCause span .unresolvable)
  return ⟨.block ⟨[], span⟩, span⟩

/-- The brace at the cursor is tried as this form, unless it failed as that before. -/
def tryBrace (form : BraceForm) (reader : Reader Expr) : Reader (Option Expr) := do
  let offset := (← here).start
  if (← read).remember && ((← get).failed form).contains offset then
    return none
  match ← speculate reader with
  | some e => return some e
  | none =>
    modify fun s => s.noteFailed offset form
    return none

def tryRecord : Reader (Option Expr) := tryBrace .record recordLiteral

def tryBlock : Reader (Option Expr) := tryBrace .block blockExpr

/-- A brace where a value goes: a record if it reads as one, else a block. -/
def braceValue : Reader Expr := do
  if looksLikeRecord (← cursor) then
    if let some e ← tryRecord then
      return e
    if let some e ← tryBlock then
      return e
    unresolvable
  else
    blockExpr

/-- The body of an arm: a block if it reads as one, else a record. What cannot be a record is
read as a block once more, for its faults. -/
def armBody : Reader Expr := do
  unless ← atMark .lBrace do
    failUnexpected (.mark .lBrace)
  if let some e ← tryBlock then
    return e
  if looksLikeRecord (← cursor) then
    if let some e ← tryRecord then
      return e
    unresolvable
  else
    blockExpr

/-! ## Control flow -/

/-- `if test { body }`, before it is known what follows. -/
structure Branch where
  start : Span
  test : Expr
  body : Block

def Branch.toExpr (branch : Branch) (otherwise : Option Expr) : Expr :=
  let stop := otherwise.elim branch.body.span Expr.span
  ⟨.conditional branch.test branch.body otherwise, branch.start.cover stop⟩

def branch : Reader Branch := do
  let start ← needWord .ifWord
  let test ← expr .head
  let body ← block
  return ⟨start, test, body⟩

/-- What follows a branch: more branches, and maybe a block. -/
def elseBranchesUpTo : Nat → Reader (List Branch × Option Expr)
  | 0 => return ([], none)
  | fuel + 1 => do
    if ← takeWord .elseWord then
      if (← kind).isWord .ifWord then
        let first ← branch
        let (rest, last) ← elseBranchesUpTo fuel
        return (first :: rest, last)
      else
        return ([], some (← blockExpr))
    else
      return ([], none)

def conditional : Reader Expr := do
  let first ← branch
  let (rest, last) ← elseBranchesUpTo (← tokensLeft)
  return first.toExpr (rest.foldr (fun b otherwise => some (b.toExpr otherwise)) last)

/-- The pattern of an arm: a value if one reads up to the arrow, else a type. -/
def pattern : Reader Pattern := do
  let value? ← speculate do
    let value ← expr .head
    unless ← atMark .arrow do
      failUnexpected (.mark .arrow)
    return value
  match value? with
  | some value => return .value value
  | none => return .type (← type)

/-- `pattern -> body` -/
def arm : Reader Arm := do
  let left ← pattern
  let _ ← needMark .arrow
  let right ← armBody
  return ⟨left, right, left.span.cover right.span⟩

/-- `match scrutinee { arms }` -/
def selection : Reader Expr := do
  let start ← needWord .matchWord
  let scrutinee ← expr .head
  let _ ← needMark .lBrace
  let arms ← recovering .arm (·.isMark .rBrace) arm
  let closing ← needMark .rBrace
  return ⟨.selection scrutinee arms, start.cover closing⟩

/-! ## Operands -/

/-- The atom at the cursor. -/
def primary (position : Position) : Reader Expr := do
  match ← kind with
  | .int value radix => atom (.int value radix)
  | .float value => atom (.float value)
  | .bool value => atom (.bool value)
  | .name text => atom (.name text)
  | .typeName text => atom (.typeName text)
  | .str multiline pieces => stringLiteral multiline pieces
  | .macroName text => macroCall text position
  | .mark .lBracket => listLiteral
  | .mark .lParen => parens
  | .mark .lBrace =>
    match position with
    | .statement => blockExpr
    | .value => braceValue
    | .head => failUnexpected .expression
  | .word .fnWord | .word .staticWord =>
    let decl ← fnDecl
    return ⟨.fn decl, decl.span⟩
  | .word .ifWord => conditional
  | .word .matchWord => selection
  | .word .loopWord => throw (.ofCause (← here) (.reserved .loopWord))
  | .word .awaitWord => throw (.ofCause (← here) (.reserved .awaitWord))
  | _ => failUnexpected .expression

def typeAccess (base member : Expr) : Expr := ⟨.typeAccess base member, base.span.cover member.span⟩

/-- `a::b::c` after a point; the accesses bind tighter than the point. -/
def accessesUpTo (position : Position) (base : Expr) : Nat → Reader Expr
  | 0 => return base
  | fuel + 1 => do
    if ← takeMark .colonColon then
      let member ← primary position
      accessesUpTo position (typeAccess base member) fuel
    else
      return base

/-- What a question mark may follow. -/
def acceptsAttempt : ExprKind → Bool
  | .int _ _ | .float _ | .str _ _ | .bool _ | .name _ | .typeName _ | .list _ | .record _
  | .tuple _ | .call _ _ | .macroCall _ _ _ _ _ | .member _ _ | .typeAccess _ _ => true
  | _ => false

/-- The expression under a question mark at the cursor. -/
def attemptOf (e : Expr) : Reader Expr := do
  if let .attempt _ := e.kind then
    failAdvised .operator .secondAttempt
  unless acceptsAttempt e.kind do
    failAdvised .operator .misplacedAttempt
  let stop := (← advance).span
  return ⟨.attempt e, e.span.cover stop⟩

/-- Calls, accesses and question marks after `e`. -/
def postfixUpTo (position : Position) (e : Expr) : Nat → Reader Expr
  | 0 => return e
  | fuel + 1 => do
    match ← kind with
    | .mark .lParen =>
      let (items, closing) ← args
      postfixUpTo position ⟨.call e items, e.span.cover closing⟩ fuel
    | .mark .dot =>
      let _ ← advance
      let first ← primary position
      let member ← accessesUpTo position first (← tokensLeft)
      postfixUpTo position ⟨.member e member, e.span.cover member.span⟩ fuel
    | .mark .colonColon =>
      let _ ← advance
      let member ← primary position
      postfixUpTo position (typeAccess e member) fuel
    | .mark .question =>
      let inner ← attemptOf e
      postfixUpTo position inner fuel
    | _ => return e

def postfixExpr (position : Position) : Reader Expr := do
  let first ← primary position
  postfixUpTo position.operand first (← tokensLeft)

def unaryExpr (position : Position) : Reader Expr := do
  match UnaryOp.ofKind? (← kind) with
  | some op =>
    let start := (← advance).span
    let inner ← operand position.operand
    return ⟨.unary op inner, start.cover inner.span⟩
  | none => postfixExpr position

/-- The operators of a chain, of this level or a higher one, with the operands after them. -/
def chainUpTo (level : Nat) (position : Position) : Nat → Reader (List (BinaryOp × Expr))
  | 0 => return []
  | fuel + 1 => do
    match (BinaryOp.ofKind? (← kind)).filter fun op => level ≤ op.level with
    | some op =>
      let _ ← advance
      let next ← unaryExpr position
      return (op, next) :: (← chainUpTo level position fuel)
    | none => return []

/-- A chain of operators of this level or a higher one. -/
def chain (level : Nat) (position : Position) : Reader Expr := do
  let first ← unaryExpr position
  let rest ← chainUpTo level position.operand (← tokensLeft)
  return climb [] first rest

/-! ## Records -/

/-- `name = value` or `name`, and a comma unless the next field or the end follows. -/
def recordField : Reader RecordField := do
  let (text, span) ← name
  let field ←
    if ← takeMark .eq then do
      let value ← expr .value
      pure ⟨text, some value, span.cover value.span⟩
    else
      pure ⟨text, none, span⟩
  unless ← takeMark .comma do
    match ← kind with
    | .name _ | .mark .rBrace => pure ()
    | _ => failUnexpected .recordBreak
  return field

def recordFieldsUpTo : Nat → Reader (List RecordField)
  | 0 => return []
  | fuel + 1 => do
    if ← atMark .rBrace then
      return []
    let first ← recordField
    return first :: (← recordFieldsUpTo fuel)

/-- `{ a = 1, b }` -/
def recordExpr : Reader Expr := do
  let opening ← needMark .lBrace
  let fields ← recordFieldsUpTo (← tokensLeft)
  let closing := (← advance).span
  return ⟨.record fields, opening.cover closing⟩

end JuiceSyntax.Grammar
