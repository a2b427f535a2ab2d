/-
  What a dump tells of the document it is of. Trees that are read are lawful, and a lawful tree is told by its
  S-expression. So documents with one dump have one tree, up to what a dump leaves out: the spans, the `#!` line,
  the word `type`, the markers of strings over several lines and the tokens of macro bodies.

  How a float is shown is not known here. That floats with one text are the same is assumed of those in the
  two documents.
-/
import JuiceSyntax.Proofs.Grammar.Lawful
import JuiceSyntax.Proofs.Tree.Dump

namespace JuiceSyntax

theorem readItems_lawful (setting : Setting) (source : String) :
    ∀ item ∈ (readItems setting (lex source).tokens).value, Lawful item.kind.nodes := by
  obtain ⟨items, t, hread⟩ := itemsEnding_ok setting (lex source).tokens
  rw [readItems_eq, hread]
  have hlevel := level_yields source setting setting.options.maxDepth
  have hitems : Yields source (level setting setting.options.maxDepth) (fun _ => True) JuiceSyntax.items _ :=
    .recovering hlevel.grows Grammar.composed_item (Grammar.yields_item hlevel) .item fun _ => false
  exact (hitems.yields trivial Stream.whole.drawn hread).2

/-- Whatever the text is, its tree is lawful. -/
theorem Document.read_lawful (source : String) (options : Options) :
    Lawful (Document.read source options).program.nodes := by
  unfold Document.read
  dsimp only
  split
  · exact .nil
  · exact .flatMap (readItems_lawful _ source)

/-- Documents with one dump have one tree, except for what a dump leaves out. -/
theorem Document.dump_identifies {source source' : String} {options options' : Options} {program program' : Program}
    (hread : program = (Document.read source options).program)
    (hread' : program' = (Document.read source' options').program)
    (hfinite : ∀ x ∈ program.floats ++ program'.floats, x.isFinite = true)
    (hshown : ∀ x ∈ program.floats ++ program'.floats, ∀ y ∈ program.floats ++ program'.floats,
      floatText x = floatText y → x = y)
    (hdump : program.dump = program'.dump) : program.erased = program'.erased := by
  subst hread hread'
  exact Program.erased_eq_of_dump (read_lawful _ _) (read_lawful _ _) hfinite hshown hdump

/-- The word `type`, where a line is marked and blanks in a macro body are not shown. -/
theorem Document.dump_identifies_spellings :
    (Document.read "type A := int\nx := \"\n  | a\n  \"\ny := m!\x7b a \x7d" .standard).program.erased =
      (Document.read "A := int\n\nx := \"\n| a\n\"\ny := m!\x7ba\x7d" .standard).program.erased := by
  have hnone : (Document.read "type A := int\nx := \"\n  | a\n  \"\ny := m!\x7b a \x7d" .standard).program.floats ++
      (Document.read "A := int\n\nx := \"\n| a\n\"\ny := m!\x7ba\x7d" .standard).program.floats = [] :=
    List.isEmpty_iff.1 (by decide +kernel)
  have never (x : Float) (hx : x ∈ _ ++ _) : False := List.not_mem_nil (hnone ▸ hx)
  exact dump_identifies rfl rfl (fun x hx => (never x hx).elim) (fun x hx => (never x hx).elim) (by decide +kernel)

end JuiceSyntax
