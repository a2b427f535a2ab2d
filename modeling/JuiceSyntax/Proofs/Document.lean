/-
  What a clean document says of its text. The lexer stops counting its faults at a limit, and
  only those that it reports are checked against the macro bodies. So in a clean document the
  first faults of the text all lie within macro bodies of the program; of the faults after
  them nothing is known (`clean_inBody`, `clean_with_stray`).
-/
import JuiceSyntax.Proofs.Grammar.MacroBodies
import JuiceSyntax.Proofs.Token.FaultLimit

namespace JuiceSyntax

/-- The fault lies between the braces of a macro body of the program. -/
def InBody (program : Program) (fault : LexFault) : Prop :=
  ∃ body ∈ program.macroBodies, body.inner.holds fault.span = true

instance (program : Program) (fault : LexFault) : Decidable (InBody program fault) :=
  inferInstanceAs (Decidable (∃ body ∈ program.macroBodies, body.inner.holds fault.span = true))

/-- A clean document is its reading, also in strict mode. -/
theorem read_of_clean {source : String} {options : Options} (h : (Document.read source options).isClean = true) :
    Document.read source options =
      .ofReading source (readItems (.ofSource source options) (lex source).tokens) := by
  unfold Document.read at h ⊢
  dsimp only at h ⊢
  split at h
  · rename_i hstrict
    simp only [Bool.and_eq_true, Bool.not_eq_true'] at hstrict
    simp only [Document.isClean, hstrict.2, Bool.false_and, Bool.false_eq_true] at h
  · rename_i htolerant
    rw [if_neg htolerant]
    rfl

/-- Without faults of the grammar, what is not reported outside the noted bodies lies in one of
the program. -/
theorem inBody_of_outside {source : String} {reading : Reading (List Item)} {fault : LexFault}
    (hbodies : reading.macroBodies = (reading.value.flatMap Item.macroBodies).map (·.inner))
    (houtside : outsideBodies reading.macroBodies (lex source).faults = []) (hf : fault ∈ (lex source).faults) :
    InBody (Document.ofReading source reading).program fault := by
  have hbody := List.filter_eq_nil_iff.1 houtside fault hf
  rw [hbodies] at hbody
  simp only [Bool.not_eq_true', Bool.not_eq_false] at hbody
  obtain ⟨inner, hinner, hholds⟩ := List.any_eq_true.1 hbody
  obtain ⟨body, hmem, rfl⟩ := List.mem_map.1 hinner
  exact ⟨body, hmem, hholds⟩

/-- In a clean document every fault that the lexer reports lies within a body. -/
theorem inBody_of_clean {source : String} {options : Options} (h : (Document.read source options).isClean = true)
    {fault : LexFault} (hf : fault ∈ (lex source).faults) : InBody (Document.read source options).program fault := by
  have hread := read_of_clean h
  rw [hread] at h ⊢
  simp only [Document.isClean, Document.ofReading, Bool.and_eq_true, List.isEmpty_iff] at h
  obtain ⟨houtside, hfaults⟩ := h
  exact inBody_of_outside (readItems_macroBodies hfaults) houtside hf

/-- In a clean document the first faults of the text lie within bodies. All of them do just if
those after the limit do, and so whenever there are none after it. -/
theorem clean_inBody {source : String} {options : Options} (h : (Document.read source options).isClean = true) :
    (∀ fault ∈ (lexWithin none source).faults.take faultLimit, InBody (Document.read source options).program fault) ∧
      ((∀ fault ∈ (lexWithin none source).faults, InBody (Document.read source options).program fault) ↔
        ∀ fault ∈ (lexWithin none source).faults.drop faultLimit,
          InBody (Document.read source options).program fault) := by
  have hfirst : ∀ fault ∈ (lexWithin none source).faults.take faultLimit,
      InBody (Document.read source options).program fault := by
    intro fault hf
    rw [← faults_lexWithin] at hf
    exact inBody_of_clean h hf
  refine ⟨hfirst, fun hall fault hf => hall fault (List.mem_of_mem_drop hf), fun hrest fault hf => ?_⟩
  rw [← List.take_append_drop faultLimit (lexWithin none source).faults, List.mem_append] at hf
  exact hf.elim (hfirst fault) (hrest fault)

theorem clean_inBody_stray :
    (∀ fault ∈ (lexWithin none "fn f() \x7b x := foo!\x7b @ \x7d \x7d").faults.take faultLimit,
        InBody (Document.read "fn f() \x7b x := foo!\x7b @ \x7d \x7d" .standard).program fault) ∧
      ((∀ fault ∈ (lexWithin none "fn f() \x7b x := foo!\x7b @ \x7d \x7d").faults,
          InBody (Document.read "fn f() \x7b x := foo!\x7b @ \x7d \x7d" .standard).program fault) ↔
        ∀ fault ∈ (lexWithin none "fn f() \x7b x := foo!\x7b @ \x7d \x7d").faults.drop faultLimit,
          InBody (Document.read "fn f() \x7b x := foo!\x7b @ \x7d \x7d" .standard).program fault) :=
  clean_inBody (by decide +kernel)

/-- Twenty stray characters in a body use up the limit, and the one outside is not reported. -/
theorem clean_with_stray :
    (Document.read "fn f() \x7b x := foo!\x7b @ @ @ @ @ @ @ @ @ @ @ @ @ @ @ @ @ @ @ @ \x7d @ \x7d" .standard).isClean = true ∧
      ¬∀ fault ∈ (lexWithin none "fn f() \x7b x := foo!\x7b @ @ @ @ @ @ @ @ @ @ @ @ @ @ @ @ @ @ @ @ \x7d @ \x7d").faults,
        InBody (Document.read "fn f() \x7b x := foo!\x7b @ @ @ @ @ @ @ @ @ @ @ @ @ @ @ @ @ @ @ @ \x7d @ \x7d" .standard).program
          fault := by
  decide +kernel

end JuiceSyntax
