/-
  Where the nodes of a program lie. A block that the end of the document closes goes to the end of the
  document, and what it is part of only to the last token, so that the block can stick out
  (`unclosed_block_sticks_out`).

  `Document.read_nested`: no node of any other program does, whatever else is wrong with it.
-/
import JuiceSyntax.Proofs.Grammar.DumpFidelity
import JuiceSyntax.Proofs.Grammar.Exactness
import JuiceSyntax.Proofs.Tree.Outlining

namespace JuiceSyntax

theorem shebang_le {source : String} {span : Span} (h : (lex source).shebang = some span) :
    span.stop ≤ source.utf8ByteSize := by
  rw [shebang_lex] at h
  split at h
  · cases h
  · cases h
    rw [utf8ByteSize_eq_byteWidth]
    exact byteWidth_le_of_prefix (shebangLine_le source.toList)

/-- Every node lies within the node around it, unless a brace is open where the document ends. -/
theorem Document.read_nested (source : String) (options : Options)
    (h : ∀ fault ∈ (Document.read source options).faults, fault.isOpenBrace = false) :
    (Document.read source options).program.outline.Nested := by
  have hexact := exact_of_bracesClosed source options h
  have hitems := (Program.outlined _ (read_lawful source options)).nested hexact
  have hspan : (Document.read source options).program.span = ⟨0, source.utf8ByteSize⟩ := by
    unfold Document.read
    dsimp only
    split <;> rfl
  have hshebang : (Document.read source options).program.shebang = (lex source).shebang := by
    unfold Document.read
    dsimp only
    split <;> rfl
  refine Outline.nested_node_iff.2 (List.forall_mem_append.2 ⟨fun o hmem => ?_, fun o hmem => ?_⟩)
  · obtain ⟨span, hfirst, rfl⟩ := List.mem_map.1 hmem
    rw [hshebang, Option.mem_toList] at hfirst
    rw [hspan]
    exact ⟨Span.holds_iff.2 ⟨Nat.zero_le _, shebang_le hfirst⟩, Outline.nested_node_iff.2 nofun⟩
  · obtain ⟨hstart, hstop, hnested⟩ := hitems o hmem
    exact ⟨Span.holds_iff.2 ⟨hstart, hstop⟩, hnested⟩

/-- A constructor among fields, a brace that opens nothing, a parenthesis too many and a tuple of one macro call. -/
def faultyProgram : String :=
  "type T := \x7b a: int, B(x) \x7d fn f() \x7b v := \x7b a, 1 \x7d ) return (m!\x7b q \x7d,) \x7d"

theorem Document.read_nested_faulty :
    (Document.read faultyProgram .standard).faults.length = 4 ∧
      (∀ fault ∈ (Document.read faultyProgram .standard).faults, fault.isOpenBrace = false) ∧
      (Document.read faultyProgram .standard).program.outline.Nested := by
  have hclosed : ∀ fault ∈ (Document.read faultyProgram .standard).faults, fault.isOpenBrace = false := by decide +kernel
  exact ⟨by decide +kernel, hclosed, Document.read_nested _ _ hclosed⟩

/-- A block that the end of the document closes goes to the end of the document, and the function
it is the body of only to the last token. -/
theorem unclosed_block_sticks_out : ¬(Document.read "fn f() \x7b " .standard).program.outline.Nested := by
  decide +kernel

end JuiceSyntax
