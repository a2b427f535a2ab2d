/-
  Heads are braceless. A brace behind a head opens the body or the arms, so none of its own may stand at its
  end: no record, no block and no body of a macro, unless there are brackets around it.

  `heads_braceless`: this holds of all heads, and of all values that are patterns, anywhere in what is read.
-/
import JuiceSyntax.Proofs.Grammar.Fronts
import JuiceSyntax.Proofs.Grammar.Heads
import JuiceSyntax.Proofs.Grammar.Transparency

namespace JuiceSyntax

open Reader Grammar

/-- All heads in a tree with these nodes, and all values before an arrow. -/
def HeadsBraceless (nodes : List Node) : Prop :=
  ∀ node ∈ nodes, (∀ head ∈ node.heads, head.Braceless) ∧ ∀ value, .value value ∈ node.patterns → value.Braceless

/-- A pattern that is a value was read as a head. -/
theorem braceless_pattern {L : Level} (hL : L.Grows) (h : Always L (expr .head) Expr.Braceless) :
    Always L pattern fun pattern => ∀ value, pattern = .value value → value.Braceless := by
  rw [pattern_eq]
  refine .bindOf (.speculate (.always hL) composed_patternValue (gives_patternValue h)) fun found hfound => ?_
  cases found with
  | some value => exact .pure fun _ heq => Pattern.value.inj heq ▸ hfound value rfl
  | none => exact .after fun _ => .pure nofun

theorem level_braceless (setting : Setting) (n : Nat) :
    (level setting n).Fronts (fun _ => True) Expr.Braceless fun pattern => ∀ value, pattern = .value value → value.Braceless :=
  level_fronts (fun n => .always (level_grows setting n)) (fun n => (level_heads setting n).1)
    (fun hread _ _ => (braceless_pattern (level_grows setting _) (level_heads setting _).1).gives hread trivial) n

theorem HeadsBraceless.of_fronts {nodes : List Node}
    (h : Fronts Expr.Braceless (fun pattern => ∀ value, pattern = .value value → value.Braceless) nodes) : HeadsBraceless nodes :=
  fun node hnode => ⟨(h node hnode).heads, fun _ hvalue => (h node hnode).patterns _ hvalue _ rfl⟩

/-- A program and an expression. -/
theorem heads_braceless (setting : Setting) (tokens : List Token) :
    (∀ item ∈ (readItems setting tokens).value, HeadsBraceless item.kind.nodes) ∧
      ∀ e, (readExpr setting tokens).value = some e → HeadsBraceless e.nodes := by
  have hlevel := level_braceless setting setting.options.maxDepth
  refine ⟨fun item hitem => .of_fronts (readItems_fronts hlevel trivial item hitem), fun e he => ?_⟩
  obtain ⟨t, hread, -⟩ := exists_of_readExpr he
  exact .of_fronts ((hlevel.expr .value).gives hread trivial)

end JuiceSyntax
