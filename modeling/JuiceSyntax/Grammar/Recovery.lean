/-
  Going on after a fault. Recovery passes over tokens up to a place where reading can resume
  and notes the text passed over on the fault. The loops here read lists of things; each turn
  of a loop consumes a token or ends it, so the number of tokens left bounds the turns.

  `Resume.distance_le`: a search for a place to resume never passes the end of the tokens.
-/
import JuiceSyntax.Grammar.State

namespace JuiceSyntax

open Reader

/-! ## Searching -/

/-- Where reading can resume. Braces that open after the fault are passed over as groups. -/
structure Resume where
  /-- Something to resume at starts with these two kinds. -/
  starts : Kind → Kind → Bool
  /-- A brace that closes what the fault is in ends the search; it is not passed. -/
  atClose : Bool
  /-- The end of a group ends the search. -/
  afterGroup : Bool

namespace Resume

/-- How many tokens to pass, below `depth` open braces. -/
def distance (r : Resume) : Nat → List Token → Nat
  | _, [] => 0
  | depth, token :: rest =>
    if token.kind.isDone then 0
    else if token.kind.isMark .lBrace then r.distance (depth + 1) rest + 1
    else if token.kind.isMark .rBrace then
      match depth with
      | 0 => if r.atClose then 0 else r.distance 0 rest + 1
      | 1 => if r.afterGroup then 1 else r.distance 0 rest + 1
      | depth + 2 => r.distance (depth + 1) rest + 1
    else if depth == 0 && r.starts token.kind (rest.head?.elim .done Token.kind) then 0
    else r.distance depth rest + 1

/-- A name and a sign that makes it a binding or an assignment. -/
def startsBinding : Kind → Kind → Bool
  | .name _, .mark .colonEq | .name _, .mark .colon | .name _, .mark .eq => true
  | _, _ => false

/-- At a statement of the program: one that begins with a reserved word, or a declaration
without one. -/
def item : Resume where
  starts first second :=
    first.startsItem || startsBinding first second ||
      match first, second with
      | .typeName _, .mark .colonEq | .typeName _, .mark .lParen => true
      | _, _ => false
  atClose := false
  afterGroup := true

/-- At a statement of a block. -/
def statement : Resume where
  starts first second := first.startsStatement || startsBinding first second
  atClose := true
  afterGroup := true

/-- After the body of an arm. -/
def arm : Resume where
  starts _ _ := false
  atClose := true
  afterGroup := true

/-- At a function of an `impl`. -/
def fn : Resume where
  starts first _ := first.isWord .fnWord || first.isWord .staticWord
  atClose := true
  afterGroup := false

end Resume

/-- The number of tokens of the group that begins here with a brace; all of them if it is
never closed. -/
def groupLength : Nat → List Token → Nat
  | _, [] => 0
  | depth, token :: rest =>
    if token.kind.isDone then 0
    else if token.kind.isMark .lBrace then groupLength (depth + 1) rest + 1
    else if token.kind.isMark .rBrace then
      if depth ≤ 1 then 1 else groupLength (depth - 1) rest + 1
    else groupLength depth rest + 1

/-- The number of tokens before the brace that closes the group around them. -/
def innerLength : Nat → List Token → Nat
  | _, [] => 0
  | depth, token :: rest =>
    if token.kind.isDone then 0
    else if token.kind.isMark .lBrace then innerLength (depth + 1) rest + 1
    else if token.kind.isMark .rBrace then
      match depth with
      | 0 => 0
      | depth + 1 => innerLength depth rest + 1
    else innerLength depth rest + 1

/-! ## Recovering -/

/-- Consumes `n` tokens. -/
def Cursor.skip (c : Cursor) : Nat → Cursor
  | 0 => c
  | n + 1 => c.advance.skip n

/-- Consumes `n` tokens. -/
def skip (n : Nat) : Reader Unit := modify fun s => { s with cursor := s.cursor.skip n }

/-- Notes a passed text on the last fault, unless one is noted there. -/
def noteSkipped (span : Span) : List Fault → List Fault
  | [] => []
  | [fault] => [{ fault with skipped := fault.skipped.or (some span) }]
  | fault :: rest => fault :: noteSkipped span rest

/-- From here on to where reading can resume. A token that would be read again, being the one
the failed reading began at, is passed. -/
def resumeFrom (start : Cursor) (resume : Resume) (here : Cursor) : Cursor :=
  let stuck := here.pos == start.pos && !here.atEnd && !here.kind.isMark .rBrace
  let here := if stuck then here.advance else here
  here.skip (resume.distance 0 here.rest)

/-- Recovers from the fault just recorded, of a reading that began at `start`. -/
def recover (start : Cursor) (resume : Resume) : Reader Unit := do
  let state ← get
  unless state.halted do
    let cursor := resumeFrom start resume state.cursor
    let faults :=
      if start.pos < cursor.pos then noteSkipped (start.span.cover cursor.previous) state.faults
      else state.faults
    set { state with cursor, faults }

/-! ## Loops -/

/-- The number of tokens left, which bounds the turns of a loop. -/
def tokensLeft : Reader Nat := return (← cursor).left

/-- Items up to a closing mark, with commas between them and maybe after the last. -/
def separatedUpTo (close : Mark) (item : Reader α) : Nat → Reader (List α)
  | 0 => return []
  | fuel + 1 => do
    if ← atMark close then
      return []
    let first ← item
    if ← takeMark .comma then
      return first :: (← separatedUpTo close item fuel)
    else
      return [first]

def separated (close : Mark) (item : Reader α) : Reader (List α) := do
  separatedUpTo close item (← tokensLeft)

/-- Items up to a kind at which they end, or the end of the tokens. The fault of an item that
fails is recorded, and the items go on where reading can resume. -/
def recoveringUpTo (resume : Resume) (ends : Kind → Bool) (item : Reader α) : Nat → Reader (List α)
  | 0 => return []
  | fuel + 1 => do
    let start ← cursor
    if ends start.kind || start.atEnd || (← halted) then
      return []
    match ← attempt item with
    | .ok first => return first :: (← recoveringUpTo resume ends item fuel)
    | .error fault =>
      record fault
      recover start resume
      recoveringUpTo resume ends item fuel

def recovering (resume : Resume) (ends : Kind → Bool) (item : Reader α) : Reader (List α) := do
  recoveringUpTo resume ends item (← tokensLeft)

end JuiceSyntax
