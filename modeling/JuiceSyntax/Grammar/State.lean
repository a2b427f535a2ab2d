/-
  What a reading of the grammar works on. The cursor stands in a token list; the state adds the
  faults so far and what has to be remembered of the braces already read. A reader may call the
  grammar one nesting level deeper only through its level, and at the innermost level such a
  call is the fault that the nesting is too deep.

  A reader keeps the state also when it ends in a fault: what it consumed stays consumed.

  `Cursor.advance_of_atEnd`: the end of the tokens is never consumed. `Cursor.left_advance`: any
  other token is, and then one less is left, by which every loop of the grammar ends.
-/
import JuiceSyntax.Grammar.Fault
import JuiceSyntax.Grammar.Options
import JuiceSyntax.Tree.Basic

namespace JuiceSyntax

/-- A place in a token list. -/
structure Cursor where
  /-- How many tokens are consumed. -/
  pos : Nat
  /-- The span of the last of them. -/
  last : Option Span
  /-- The tokens that follow; a list from the lexer ends with `done`. -/
  rest : List Token
  /-- How many they are, which bounds the turns of every loop from here. -/
  left : Nat
  left_eq : left = rest.length

namespace Cursor

def ofTokens (tokens : List Token) : Cursor := ⟨0, none, tokens, tokens.length, rfl⟩

instance : Inhabited Cursor := ⟨.ofTokens []⟩

/-- The token at the cursor; an empty list reads as its end at offset zero. -/
def current (c : Cursor) : Token := c.rest.headD ⟨.done, .point 0⟩

def kind (c : Cursor) : Kind := c.current.kind

def span (c : Cursor) : Span := c.current.span

/-- The kind of the token `n` places on. -/
def peek (c : Cursor) (n : Nat) : Kind := (c.rest[n]?).elim .done Token.kind

/-- The span of the token `n` places on, or of the current one if there is none. -/
def peekSpan (c : Cursor) (n : Nat) : Span := (c.rest[n]?).elim c.span Token.span

def atEnd (c : Cursor) : Bool := c.kind.isDone

/-- Consumes the current token, unless it is the end. -/
def advance (c : Cursor) : Cursor :=
  match h : c.rest with
  | [] => c
  | token :: rest =>
    if token.kind.isDone then c
    else ⟨c.pos + 1, some token.span, rest, c.left - 1, by simp [c.left_eq, h]⟩

/-- The span of the last token consumed, or the point before the current one. -/
def previous (c : Cursor) : Span := c.last.getD (.point c.span.start)

theorem rest_advance (c : Cursor) :
    c.advance.rest = if c.atEnd then c.rest else c.rest.tail := by
  unfold advance
  split <;> rename_i h
  · simp [atEnd, kind, current, h]
  · split <;> simp_all [atEnd, kind, current]

theorem advance_of_atEnd {c : Cursor} (h : c.atEnd = true) : c.advance = c := by
  unfold advance
  split
  · rfl
  · rename_i token rest hr
    have hd : token.kind.isDone = true := by simpa [atEnd, kind, current, hr] using h
    simp [hd]

theorem left_advance {c : Cursor} (h : c.atEnd = false) : c.advance.left + 1 = c.left := by
  have hr : c.rest ≠ [] := by
    intro hr
    simp [atEnd, kind, current, hr, Kind.isDone] at h
  have hl : 0 < c.rest.length := List.length_pos_iff.2 hr
  rw [c.advance.left_eq, c.left_eq, rest_advance, h]
  simp
  omega

end Cursor

/-- Where an expression stands, which decides what a brace means there. -/
inductive Position where
  /-- At the start of a statement: a brace opens a block. -/
  | statement
  /-- Where a value goes: a brace opens a record if it reads as one, else a block. -/
  | value
  /-- Before a body: a brace opens that body and is not part of the expression. -/
  | head
deriving DecidableEq, Repr, Inhabited

/-- Where the operands after the first one stand. -/
def Position.operand : Position → Position
  | statement => value
  | p => p

/-- What a brace where a value goes can open. -/
inductive BraceForm where
  | record | block
deriving DecidableEq, Repr, Inhabited

structure State where
  cursor : Cursor
  /-- In the order in which they were recorded. -/
  faults : List Fault
  /-- Nothing more is recorded, and every loop ends. -/
  halted : Bool
  /-- What is between the braces of the macro bodies read so far. -/
  macroBodies : List Span
  /-- Offsets of braces that do not open a record. -/
  failedRecords : List Nat
  /-- Offsets of braces that do not open a block. -/
  failedBlocks : List Nat
deriving Inhabited

namespace State

def ofTokens (tokens : List Token) : State := ⟨.ofTokens tokens, [], false, [], [], []⟩

/-- Offsets of braces that do not open this form. -/
def failed (s : State) : BraceForm → List Nat
  | .record => s.failedRecords
  | .block => s.failedBlocks

/-- Remembers that the brace at `offset` does not open this form. -/
def noteFailed (s : State) (offset : Nat) : BraceForm → State
  | .record => { s with failedRecords := offset :: s.failedRecords }
  | .block => { s with failedBlocks := offset :: s.failedBlocks }

end State

/-- A step of a reading, with the state kept on faults. -/
abbrev Step := EStateM Fault State

/-- What a reader may use: the document, the options, and the grammar one nesting level
deeper. -/
structure Level where
  source : List Char
  options : Options
  /-- Whether braces that failed before are passed over at once. -/
  remember : Bool
  expr : Position → Step Expr
  /-- The operand of a prefix operator. -/
  operand : Position → Step Expr
  block : Step Block
  type : Step TypeExpr
  record : Step Expr

abbrev Reader := ReaderT Level Step

namespace Reader

/-! ## Looking -/

def cursor : Reader Cursor := return (← get).cursor

def kind : Reader Kind := return (← cursor).kind

def here : Reader Span := return (← cursor).span

def peek (n : Nat) : Reader Kind := return (← cursor).peek n

def atEnd : Reader Bool := return (← cursor).atEnd

def halted : Reader Bool := return (← get).halted

/-- The current token is this mark. -/
def atMark (m : Mark) : Reader Bool := return (← kind).isMark m

/-- The span from `start` to the end of the last token consumed. -/
def spanFrom (start : Span) : Reader Span := return start.cover (← cursor).previous

/-! ## Consuming -/

/-- Consumes the current token, unless it is the end, and gives it. -/
def advance : Reader Token := do
  let token := (← cursor).current
  modify fun s => { s with cursor := s.cursor.advance }
  return token

/-- Consumes this mark if it is there. -/
def takeMark (m : Mark) : Reader Bool := do
  if ← atMark m then
    let _ ← advance
    return true
  else
    return false

/-- Consumes this word if it is there. -/
def takeWord (w : Keyword) : Reader Bool := do
  if (← kind).isWord w then
    let _ ← advance
    return true
  else
    return false

/-! ## Faults -/

/-- The fault that something else stands at the cursor than was wanted. -/
def unexpected (wanted : Wanted) (advice : Option Advice) : Reader Fault :=
  return .ofCause (← here) (.unexpected wanted (← kind) advice)

def failUnexpected (wanted : Wanted) : Reader α := do throw (← unexpected wanted none)

def failAdvised (wanted : Wanted) (advice : Advice) : Reader α := do
  throw (← unexpected wanted (some advice))

/-- Consumes this mark, which has to be there. -/
def needMark (m : Mark) : Reader Span := do
  if ← atMark m then
    return (← advance).span
  else
    throw (.ofCause (← here) (.missing (.mark m) (← kind) none))

/-- Consumes this word, which has to be there. -/
def needWord (w : Keyword) : Reader Span := do
  if (← kind).isWord w then
    return (← advance).span
  else
    throw (.ofCause (← here) (.missing (.word w) (← kind) none))

/-- Records a fault. A fatal one ends the reading, as does any in strict mode and the one that
reaches the limit. -/
def record (fault : Fault) : Reader Unit := do
  let state ← get
  unless state.halted do
    let options := (← read).options
    let faults := state.faults ++ [fault]
    if fault.isFatal || options.strict then
      set { state with faults, halted := true }
    else if options.maxFaults ≤ faults.length then
      let last := .ofCause state.cursor.span (.tooManyFaults options.maxFaults)
      set { state with faults := faults ++ [last], halted := true }
    else
      set { state with faults }

/-! ## The level below -/

def expr (position : Position) : Reader Expr := do (← read).expr position

def operand (position : Position) : Reader Expr := do (← read).operand position

def block : Reader Block := do (← read).block

def type : Reader TypeExpr := do (← read).type

def recordLiteral : Reader Expr := do (← read).record

end Reader

/-- The state of `before`, but for what is remembered of braces. Faults and macro bodies are
only ever added, so theirs are an initial part of those of `after`. -/
def State.rewind (before after : State) : State :=
  { after with
    cursor := before.cursor
    faults := after.faults.take before.faults.length
    halted := before.halted
    macroBodies := after.macroBodies.take before.macroBodies.length }

/-- Tries a reader. If it ends in a fault or records one of syntax, everything is as before and
there is no result. Structural faults mean that the shape was right and are kept; fatal ones
end the reading. -/
def speculate (reader : Reader α) : Reader (Option α) := fun level before =>
  let outcome := reader level before
  let after := match outcome with
    | .ok _ s | .error _ s => s
  let recorded := after.faults.drop before.faults.length
  match recorded.find? (·.isFatal), outcome with
  | some fault, _ => .error fault after
  | none, .ok a _ =>
    if recorded.all (·.isStructural) then .ok (some a) after else .ok none (before.rewind after)
  | none, .error fault _ =>
    if fault.isFatal then .error fault after else .ok none (before.rewind after)

/-- Runs a reader over a token list of its own and comes back to the place where the cursor
was. -/
def withTokens (tokens : List Token) (reader : Reader α) : Reader α := fun level before =>
  match reader level { before with cursor := .ofTokens tokens } with
  | .ok a s => .ok a { s with cursor := before.cursor }
  | .error fault s => .error fault { s with cursor := before.cursor }

/-- A reader that ends in a fault gives it as a result. -/
def attempt (reader : Reader α) : Reader (Except Fault α) := fun level before =>
  match reader level before with
  | .ok a s => .ok (.ok a) s
  | .error fault s => .ok (.error fault) s

end JuiceSyntax
