/-
  The shape of every tree that is read, whatever the tokens and the options are and however many faults were
  found on the way.

  `read_shaped`: tuples have at least two items; a question mark follows no question mark, group, operator,
  function, branch, selection or block; `else` leads to a branch or a block and the arrow of an arm to a block
  or a record; a macro is called with parentheses or a body; imports have a path; and in a chain an operator to
  the right of another binds more tightly than it, one to the left at least as tightly.
-/
import JuiceSyntax.Proofs.Grammar.Soundness
import JuiceSyntax.Document

namespace JuiceSyntax

theorem ground_true : Ground (fun _ => True) (fun _ => True) where
  inherited := inherited_true
  tokens _ _ _ := trivial
  origin := trivial
  point _ := trivial
  cover _ _ := trivial
  between _ _ := trivial

theorem AllSound.shaped {good : Span → Prop} {elements : List Element} (h : AllSound good elements) :
    ∀ element ∈ elements, element.isShaped = true :=
  fun element hmem => (h element hmem).shaped

theorem read_shaped (setting : Setting) (tokens : List Token) (source : String) (options : Options) :
    (∀ element ∈ (readItems setting tokens).value.flatMap Item.elements, element.isShaped = true) ∧
      (∀ element ∈ optionalExprElements (readExpr setting tokens).value, element.isShaped = true) ∧
      (∀ element ∈ (Document.read source options).program.elements, element.isShaped = true) ∧
      ∀ element ∈ optionalExprElements (ExprDocument.read source).expr, element.isShaped = true := by
  have items (setting : Setting) (tokens : List Token) :
      ∀ element ∈ (readItems setting tokens).value.flatMap Item.elements, element.isShaped = true :=
    (readItems_sound ground_true setting trivial).1.shaped
  have expr (setting : Setting) (tokens : List Token) :
      ∀ element ∈ optionalExprElements (readExpr setting tokens).value, element.isShaped = true :=
    (readExpr_sound ground_true setting trivial).1.shaped
  refine ⟨items setting tokens, expr setting tokens, fun element hmem => ?_, expr _ _⟩
  obtain rfl | hmem := List.mem_cons.1 hmem
  · rfl
  obtain hmem | hmem := List.mem_append.1 hmem
  · obtain ⟨span, -, rfl⟩ := List.mem_map.1 hmem
    rfl
  · obtain ⟨item, hitem, hmem⟩ := List.mem_flatMap.1 hmem
    have hread := (Document.read_holds source options).items hitem
    exact items _ _ element (List.mem_flatMap.2 ⟨item, hread, hmem⟩)

end JuiceSyntax
