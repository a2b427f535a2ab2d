/-
  The loops of the grammar, turn by turn. A step of a loop ends it, or says what to go on with; nothing in it
  bounds the number of turns.

  `Repetition.upTo_eq_turns`: the readers make those steps, as many as their bound allows.
-/
import JuiceSyntax.Grammar.Level

namespace JuiceSyntax

open Reader Grammar

/-! ## The loops -/

/-- What a turn of a loop comes to: a result, or what the loop goes on with and what is made of its result. -/
inductive Turn (β γ : Type) where
  | ends (c : γ)
  | on (b : β) (f : γ → γ)

/-- Goes on with the loop, if it goes on. -/
def Turn.go {β γ : Type} (loop : β → Reader γ) : Turn β γ → Reader γ
  | .ends c => return c
  | .on b f => do return f (← loop b)

/-- The lists that go on after a fault. -/
inductive Recovered : Type → Type
  | items : Recovered Item
  | statements : Recovered Statement
  | arms : Recovered Arm
  | fns : Recovered FnDecl

namespace Recovered

def resume {α : Type} : Recovered α → Resume
  | .items => .item
  | .statements => .statement
  | .arms => .arm
  | .fns => .fn

def ends {α : Type} : Recovered α → Kind → Bool
  | .items => fun _ => false
  | .statements | .arms | .fns => (·.isMark .rBrace)

def item {α : Type} : Recovered α → Reader α
  | .items => Grammar.item
  | .statements => statement
  | .arms => arm
  | .fns => implFn

end Recovered

/-- The lists with commas. -/
inductive Separated : Type → Type
  | values (close : Mark) : Separated Expr
  | args : Separated Arg
  | types : Separated TypeExpr
  | typeArgs : Separated TypeArg
  | params : Separated Param
  | typeParams : Separated Param
  | exposed : Separated Exposed

namespace Separated

def close {α : Type} : Separated α → Mark
  | .values close => close
  | .args | .types | .typeArgs | .params | .typeParams | .exposed => .rParen

def item {α : Type} : Separated α → Reader α
  | .values _ => expr .value
  | .args => arg
  | .types => type
  | .typeArgs => typeArg
  | .params => param name
  | .typeParams => param anyName
  | .exposed => Grammar.exposed

end Separated

/-- The loops of the grammar, by what they carry from turn to turn and what they read. -/
inductive Repetition : Type → Type → Type 1
  | recovered {α : Type} (list : Recovered α) : Repetition Unit (List α)
  | separated {α : Type} (list : Separated α) : Repetition Unit (List α)
  | elseBranches : Repetition Unit (List Branch × Option Expr)
  | accesses (position : Position) : Repetition Expr Expr
  | postfixes (position : Position) : Repetition Expr Expr
  | chain (level : Nat) (position : Position) : Repetition Unit (List (BinaryOp × Expr))
  | typeRest : Repetition TypeExpr TypeExpr
  | recordFields : Repetition Unit (List RecordField)
  | pathRest : Repetition Unit (List String)
  | members : Repetition (Option TypeBody) (Option TypeBody)

namespace Repetition

/-- One turn. -/
def step {β γ : Type} : Repetition β γ → β → Reader (Turn β γ)
  | .recovered list, _ => do
    let start ← cursor
    if list.ends start.kind || start.atEnd || (← halted) then
      return .ends []
    match ← attempt list.item with
    | .ok first => return .on () (first :: ·)
    | .error fault =>
      record fault
      recover start list.resume
      return .on () id
  | .separated list, _ => do
    if ← atMark list.close then
      return .ends []
    let first ← list.item
    if ← takeMark .comma then
      return .on () (first :: ·)
    else
      return .ends [first]
  | .elseBranches, _ => do
    if ← takeWord .elseWord then
      if (← kind).isWord .ifWord then
        let first ← branch
        return .on () fun rest => (first :: rest.1, rest.2)
      else
        return .ends ([], some (← blockExpr))
    else
      return .ends ([], none)
  | .accesses position, base => do
    if ← takeMark .colonColon then
      let member ← primary position
      return .on (typeAccess base member) id
    else
      return .ends base
  | .postfixes position, e => do
    match ← kind with
    | .mark .lParen =>
      let (items, closing) ← args
      return .on ⟨.call e items, e.span.cover closing⟩ id
    | .mark .dot =>
      let _ ← advance
      let first ← primary position
      let member ← accessesUpTo position first (← tokensLeft)
      return .on ⟨.member e member, e.span.cover member.span⟩ id
    | .mark .colonColon =>
      let _ ← advance
      let member ← primary position
      return .on (typeAccess e member) id
    | .mark .question =>
      let inner ← attemptOf e
      return .on inner id
    | _ => return .ends e
  | .chain level position, _ => do
    match (BinaryOp.ofKind? (← kind)).filter fun op => level ≤ op.level with
    | some op =>
      let _ ← advance
      let next ← unaryExpr position
      return .on () ((op, next) :: ·)
    | none => return .ends []
  | .typeRest, left => do
    match TypeOp.ofKind? (← kind) with
    | some op =>
      let _ ← advance
      let right ← typeAtom
      return .on ⟨.binary op left right, left.span.cover right.span⟩ id
    | none => return .ends left
  | .recordFields, _ => do
    if ← atMark .rBrace then
      return .ends []
    let first ← recordField
    return .on () (first :: ·)
  | .pathRest, _ => do
    if ← takeMark .dot then
      let (text, _) ← anyName
      return .on () (text :: ·)
    else
      return .ends []
  | .members, body => do
    if ← atMark .rBrace then
      return .ends body
    let body ← addMember body (← member)
    let _ ← takeMark .comma
    return .on body id

/-- The loop with a bound on its turns. -/
def upTo {β γ : Type} : Repetition β γ → Nat → β → Reader γ
  | .recovered list, n, _ => recoveringUpTo list.resume list.ends list.item n
  | .separated list, n, _ => separatedUpTo list.close list.item n
  | .elseBranches, n, _ => elseBranchesUpTo n
  | .accesses position, n, base => accessesUpTo position base n
  | .postfixes position, n, e => postfixUpTo position e n
  | .chain level position, n, _ => chainUpTo level position n
  | .typeRest, n, left => typeRestUpTo left n
  | .recordFields, n, _ => recordFieldsUpTo n
  | .pathRest, n, _ => pathRestUpTo n
  | .members, n, body => membersUpTo body n

/-- The loop as it is run: the bound is the number of tokens left. -/
def reader {β γ : Type} (loop : Repetition β γ) (b : β) : Reader γ := do loop.upTo (← tokensLeft) b

/-- At most `n` turns, and after them whatever `otherwise` does. -/
def turns {β γ : Type} (loop : Repetition β γ) (otherwise : β → Reader γ) : Nat → β → Reader γ
  | 0, b => otherwise b
  | n + 1, b => loop.step b >>= Turn.go (loop.turns otherwise n)

end Repetition

/-! ## Turns and the bound -/

section

variable (n : Nat)

theorem recoveringUpTo_step {α : Type} (list : Recovered α) :
    recoveringUpTo list.resume list.ends list.item (n + 1) =
      (Repetition.recovered list).step () >>= Turn.go fun _ => recoveringUpTo list.resume list.ends list.item n := by
  rw [recoveringUpTo, Repetition.step, bind_assoc]
  refine bind_congr fun start => ?_
  rw [bind_assoc]
  refine bind_congr fun ended => ?_
  split
  · rfl
  rw [bind_assoc]
  refine bind_congr fun outcome => ?_
  cases outcome with
  | ok first => rfl
  | error fault =>
    rw [bind_assoc]
    refine bind_congr fun _ => ?_
    rw [bind_assoc]
    exact bind_congr fun _ => (bind_pure _).symm

theorem separatedUpTo_step {α : Type} (list : Separated α) :
    separatedUpTo list.close list.item (n + 1) =
      (Repetition.separated list).step () >>= Turn.go fun _ => separatedUpTo list.close list.item n := by
  rw [separatedUpTo, Repetition.step, bind_assoc]
  refine bind_congr fun closed => ?_
  split
  · rfl
  rw [bind_assoc]
  refine bind_congr fun first => ?_
  rw [bind_assoc]
  refine bind_congr fun comma => ?_
  split <;> rfl

theorem elseBranchesUpTo_step :
    elseBranchesUpTo (n + 1) = Repetition.elseBranches.step () >>= Turn.go fun _ => elseBranchesUpTo n := by
  rw [elseBranchesUpTo, Repetition.step, bind_assoc]
  refine bind_congr fun found => ?_
  split
  · rw [bind_assoc]
    refine bind_congr fun kind => ?_
    split
    · rw [bind_assoc]
      exact bind_congr fun first => bind_congr fun rest => rfl
    · rw [bind_assoc]
      rfl
  · rfl

theorem accessesUpTo_step (position : Position) (base : Expr) :
    accessesUpTo position base (n + 1) =
      (Repetition.accesses position).step base >>= Turn.go fun base => accessesUpTo position base n := by
  rw [accessesUpTo, Repetition.step, bind_assoc]
  refine bind_congr fun found => ?_
  split
  · rw [bind_assoc]
    exact bind_congr fun member => (bind_pure _).symm
  · rfl

theorem postfixUpTo_step (position : Position) (e : Expr) :
    postfixUpTo position e (n + 1) =
      (Repetition.postfixes position).step e >>= Turn.go fun e => postfixUpTo position e n := by
  rw [postfixUpTo, Repetition.step, bind_assoc]
  refine bind_congr fun kind => ?_
  split
  · rw [bind_assoc]
    exact bind_congr fun _ => (bind_pure _).symm
  · rw [bind_assoc]
    refine bind_congr fun _ => ?_
    rw [bind_assoc]
    refine bind_congr fun _ => ?_
    rw [bind_assoc]
    refine bind_congr fun _ => ?_
    rw [bind_assoc]
    exact bind_congr fun _ => (bind_pure _).symm
  · rw [bind_assoc]
    refine bind_congr fun _ => ?_
    rw [bind_assoc]
    exact bind_congr fun _ => (bind_pure _).symm
  · rw [bind_assoc]
    exact bind_congr fun _ => (bind_pure _).symm
  · simp only [pure_bind]
    rfl

theorem chainUpTo_step (level : Nat) (position : Position) :
    chainUpTo level position (n + 1) =
      (Repetition.chain level position).step () >>= Turn.go fun _ => chainUpTo level position n := by
  rw [chainUpTo, Repetition.step, bind_assoc]
  refine bind_congr fun kind => ?_
  cases (BinaryOp.ofKind? kind).filter fun op => level ≤ op.level with
  | some op =>
    rw [bind_assoc]
    refine bind_congr fun _ => ?_
    rw [bind_assoc]
    exact bind_congr fun _ => rfl
  | none => rfl

theorem typeRestUpTo_step (left : TypeExpr) :
    typeRestUpTo left (n + 1) = Repetition.typeRest.step left >>= Turn.go fun left => typeRestUpTo left n := by
  rw [typeRestUpTo, Repetition.step, bind_assoc]
  refine bind_congr fun kind => ?_
  cases TypeOp.ofKind? kind with
  | some op =>
    rw [bind_assoc]
    refine bind_congr fun _ => ?_
    rw [bind_assoc]
    exact bind_congr fun _ => (bind_pure _).symm
  | none => rfl

theorem recordFieldsUpTo_step :
    recordFieldsUpTo (n + 1) = Repetition.recordFields.step () >>= Turn.go fun _ => recordFieldsUpTo n := by
  rw [recordFieldsUpTo, Repetition.step, bind_assoc]
  refine bind_congr fun closed => ?_
  split
  · rfl
  · rw [bind_assoc]
    exact bind_congr fun _ => rfl

theorem pathRestUpTo_step :
    pathRestUpTo (n + 1) = Repetition.pathRest.step () >>= Turn.go fun _ => pathRestUpTo n := by
  rw [pathRestUpTo, Repetition.step, bind_assoc]
  refine bind_congr fun found => ?_
  split
  · rw [bind_assoc]
    exact bind_congr fun _ => rfl
  · rfl

theorem membersUpTo_step (body : Option TypeBody) :
    membersUpTo body (n + 1) = Repetition.members.step body >>= Turn.go fun body => membersUpTo body n := by
  rw [membersUpTo, Repetition.step, bind_assoc]
  refine bind_congr fun closed => ?_
  split
  · rfl
  rw [bind_assoc]
  refine bind_congr fun _ => ?_
  rw [bind_assoc]
  refine bind_congr fun _ => ?_
  rw [bind_assoc]
  exact bind_congr fun _ => (bind_pure _).symm

end

namespace Repetition

variable {β γ : Type}

theorem upTo_succ (loop : Repetition β γ) (n : Nat) (b : β) :
    loop.upTo (n + 1) b = loop.step b >>= Turn.go (loop.upTo n) := by
  cases loop with
  | recovered list => exact recoveringUpTo_step n list
  | separated list => exact separatedUpTo_step n list
  | elseBranches => exact elseBranchesUpTo_step n
  | accesses position => exact accessesUpTo_step n position b
  | postfixes position => exact postfixUpTo_step n position b
  | chain level position => exact chainUpTo_step n level position
  | typeRest => exact typeRestUpTo_step n b
  | recordFields => exact recordFieldsUpTo_step n
  | pathRest => exact pathRestUpTo_step n
  | members => exact membersUpTo_step n b

theorem upTo_eq_turns (loop : Repetition β γ) (n : Nat) (b : β) : loop.upTo n b = loop.turns (loop.upTo 0) n b := by
  induction n generalizing b with
  | zero => rfl
  | succ n ih =>
    rw [upTo_succ, turns]
    exact congrArg (fun go => loop.step b >>= Turn.go go) (funext ih)

end Repetition

end JuiceSyntax
