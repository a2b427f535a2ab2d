/-
  Heads: the expressions that stand in front of a body or of arms, where a brace that follows is not theirs.

  `Expr.Reaches` goes to the parts of an expression that no brackets are around; `Expr.Braceless` says that
  none of them has braces of its own. `Node.Fronted` says something of all heads and patterns of a node.
-/
import JuiceSyntax.Proofs.Tree.Nodes

namespace JuiceSyntax

/-- Braces are at the end of an expression of this kind. -/
def ExprKind.hasBraces : ExprKind → Bool
  | .record _ | .block _ => true
  | .macroCall _ _ _ _ body => body.isSome
  | _ => false

/-- What an expression of this kind is made of where no brackets are around it. -/
def ExprKind.openParts : ExprKind → List Expr
  | .unary _ operand => [operand]
  | .binary _ left right => [left, right]
  | .attempt inner => [inner]
  | .member object inner => [object, inner]
  | .typeAccess base inner => [base, inner]
  | .call callee _ => [callee]
  | _ => []

inductive Expr.Reaches : Expr → Expr → Prop where
  | here (e : Expr) : Reaches e e
  | part {e part last : Expr} (mem : part ∈ e.kind.openParts) (reaches : Reaches part last) : Reaches e last

/-- Nowhere that one gets without going into brackets are braces. -/
def Expr.Braceless (e : Expr) : Prop := ∀ last, e.Reaches last → last.kind.hasBraces = false

theorem Expr.Braceless.of_parts {e : Expr} (h : e.kind.hasBraces = false) (h' : ∀ part ∈ e.kind.openParts, part.Braceless) :
    e.Braceless := by
  intro last hlast
  cases hlast with
  | here => exact h
  | part mem reaches => exact h' _ mem last reaches

/-! ## Heads of nodes -/

def LoopRange.heads : LoopRange → List Expr
  | .endless => []
  | .over e => [e]
  | .between first last => [first, last]

/-- The expressions of a node that a brace follows. -/
def Node.heads : Node → List Expr
  | .expr (.conditional test _ _) => [test]
  | .expr (.selection scrutinee _) => [scrutinee]
  | .statement (.loop _ range _) => range.heads
  | _ => []

def Node.patterns : Node → List Pattern
  | .expr (.selection _ arms) => arms.map Arm.pattern
  | _ => []

structure Node.Fronted (head : Expr → Prop) (choice : Pattern → Prop) (node : Node) : Prop where
  heads : ∀ e ∈ node.heads, head e
  patterns : ∀ p ∈ node.patterns, choice p

variable {head : Expr → Prop} {choice : Pattern → Prop}

theorem Node.Fronted.plain {node : Node} (h : node.heads = []) (h' : node.patterns = []) : node.Fronted head choice :=
  ⟨h ▸ List.forall_mem_nil _, h' ▸ List.forall_mem_nil _⟩

theorem Node.Fronted.conditional {test : Expr} (h : head test) (body : Block) (otherwise : Option Expr) :
    (Node.expr (.conditional test body otherwise)).Fronted head choice :=
  ⟨List.forall_mem_singleton.2 h, List.forall_mem_nil _⟩

theorem Node.Fronted.selection {scrutinee : Expr} (h : head scrutinee) {arms : List Arm} (h' : ∀ arm ∈ arms, choice arm.pattern) :
    (Node.expr (.selection scrutinee arms)).Fronted head choice := by
  refine ⟨List.forall_mem_singleton.2 h, fun p hp => ?_⟩
  obtain ⟨arm, harm, rfl⟩ := List.mem_map.1 hp
  exact h' arm harm

theorem Node.Fronted.loop {range : LoopRange} (h : ∀ e ∈ range.heads, head e) (element : Option String) (body : Block) :
    (Node.statement (.loop element range body)).Fronted head choice :=
  ⟨h, List.forall_mem_nil _⟩

end JuiceSyntax
