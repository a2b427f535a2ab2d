/-
  Every position that a reading reports can be used: those of the `#!` line, of tokens and pieces of strings at
  any depth, of comments and faults of both kinds, of the text that recovery passed over, and of everything in
  the tree, down to the tokens and the inside of a macro body.

  `Document.read_usable`: such a span is in order, within the document, and ends between characters.
-/
import JuiceSyntax.Proofs.Grammar.Soundness
import JuiceSyntax.Proofs.Token.Positions

namespace JuiceSyntax

/-- A later token begins behind where the tokens before it may. -/
theorem Laid.start_of_mem {lo hi : Nat} {tokens : List Token} (h : Laid lo tokens hi) {token : Token} (hmem : token ∈ tokens) :
    lo ≤ token.span.start := by
  induction h with
  | done after before =>
    rw [List.mem_singleton.1 hmem]
    exact after
  | cons mid after wide inner following _ ih =>
    obtain rfl | hmem := List.mem_cons.1 hmem
    · exact after
    · have := ih hmem
      omega

/-- Tokens with usable spans, one after another. -/
structure Fair (source : String) (tokens : List Token) : Prop where
  usable : ∀ span ∈ tokenSpans tokens, span.Usable source
  laid : tokens = [] ∨ ∃ lo hi, Laid lo tokens hi

namespace Fair

variable {source : String} {token : Token} {rest : List Token}

theorem tail (h : Fair source (token :: rest)) (hmid : token.kind.isDone = false) : Fair source rest where
  usable span hspan := h.usable span (by rw [tokenSpans_cons]; exact List.mem_append_right _ hspan)
  laid := by
    obtain hnil | ⟨lo, hi, hlaid⟩ := h.laid
    · cases hnil
    · cases hlaid with
      | done after before => cases hmid
      | cons mid after wide inner following => exact .inr ⟨_, _, following⟩

theorem fragments (h : Fair source (token :: rest)) : FineKind (Fair source) token.kind := by
  intro multiline pieces hkind tokens span hpiece
  obtain hnil | ⟨lo, hi, hlaid⟩ := h.laid
  · cases hnil
  cases hlaid with
  | done after before => cases hkind
  | cons mid after wide inner following =>
    refine ⟨fun span' hspan' => h.usable span' ?_, .inr ⟨_, _, inner multiline pieces hkind tokens span hpiece⟩⟩
    rw [tokenSpans_cons, Token.spans, hkind, Kind.spans]
    exact List.mem_append_left _ (List.mem_cons_of_mem _ ((mem_pieceSpans hpiece).2 tokens span rfl hspan'))

end Fair

theorem inherited_fair (source : String) : Inherited (Fair source) where
  advance {c} h := by
    rw [Cursor.rest_advance]
    split
    · exact h
    · rename_i hmid
      cases hrest : c.rest with
      | nil =>
        rw [hrest] at h
        exact h
      | cons token rest =>
        rw [hrest] at h
        refine h.tail ?_
        simpa [Cursor.atEnd, Cursor.kind, Cursor.current, hrest] using hmid
  kind h := h.fragments

theorem ground_usable (source : String) : Ground (Span.Usable source) (Fair source) where
  inherited := inherited_fair source
  tokens h := h.usable
  origin := (StandsAt.whole source).point
  point h := h.point
  cover ha hb := ha.cover hb
  between {opening rest closing} h hmem := by
    have hopening := h.usable _ (span_mem_tokenSpans List.mem_cons_self)
    have hclosing := h.usable _ (span_mem_tokenSpans (List.mem_cons_of_mem _ hmem))
    obtain hnil | ⟨lo, hi, hlaid⟩ := h.laid
    · cases hnil
    · cases hlaid with
      | done after before => exact absurd hmem List.not_mem_nil
      | cons mid after wide inner following => exact hopening.between hclosing (following.start_of_mem hmem)

/-- Where a fault is reported, and what recovery passed over after it. -/
def Fault.spans (fault : Fault) : List Span := fault.span :: fault.skipped.toList

/-- Every position in a document. -/
def Document.spans (d : Document) : List Span :=
  d.program.elements.filterMap Element.span? ++ tokenSpans d.tokens ++ d.comments.map (·.span) ++
    d.lexFaults.map (·.span) ++ d.faults.flatMap Fault.spans

theorem Document.read_usable (source : String) (options : Options) :
    ∀ span ∈ (Document.read source options).spans, span.Usable source := by
  obtain ⟨hlexed, hshebang⟩ := lex_usable source
  have hfair : Fair source (lex source).tokens := by
    obtain ⟨lo, hi, hlaid⟩ := lex_laid source
    exact ⟨hlexed.tokens, .inr ⟨lo, hi, hlaid⟩⟩
  obtain ⟨hitems, hfaults, -⟩ := readItems_sound (ground_usable source) (.ofSource source options) hfair
  have hdoc := Document.read_holds source options
  have htree : AllSound (Span.Usable source) (Document.read source options).program.elements := by
    have hprogram := (StandsAt.whole source).usable
    rw [Nat.zero_add, ← utf8ByteSize_eq_byteWidth] at hprogram
    refine .spot (hdoc.span ▸ hprogram) (.append (.spots fun span hspan => ?_) (.flatMap fun item hitem => ?_))
    · exact hshebang span (hdoc.shebang ▸ Option.mem_toList.1 hspan)
    · exact fun element hmem => hitems element (List.mem_flatMap.2 ⟨item, hdoc.items hitem, hmem⟩)
  intro span hmem
  simp only [Document.spans, List.mem_append] at hmem
  obtain (((hmem | hmem) | hmem) | hmem) | hmem := hmem
  · obtain ⟨element, helement, hspan⟩ := List.mem_filterMap.1 hmem
    exact (htree element helement).placed span hspan
  · exact hlexed.tokens span (hdoc.tokens ▸ hmem)
  · obtain ⟨comment, hcomment, rfl⟩ := List.mem_map.1 hmem
    exact hlexed.comments comment (hdoc.comments ▸ hcomment)
  · obtain ⟨fault, hfault, rfl⟩ := List.mem_map.1 hmem
    exact hlexed.faults fault (hdoc.lexFaults hfault)
  · obtain ⟨fault, hfault, hspan⟩ := List.mem_flatMap.1 hmem
    have hanchored := hfaults fault (hdoc.faults hfault)
    obtain rfl | hspan := List.mem_cons.1 hspan
    · exact hanchored.span
    · exact hanchored.skipped span (Option.mem_toList.1 hspan)

/-- Among them is that of the inside of a macro body, in a fragment of a string that does not end. -/
theorem Document.read_usable_body :
    (⟨14, 18⟩ : Span) ∈ (Document.read "x := \"é$\x7b m!\x7b é \x7d \x7d" .standard).spans ∧
      Span.Usable "x := \"é$\x7b m!\x7b é \x7d \x7d" ⟨14, 18⟩ := by
  have hspan : (⟨14, 18⟩ : Span) ∈ (Document.read "x := \"é$\x7b m!\x7b é \x7d \x7d" .standard).spans := by decide +kernel
  exact ⟨hspan, Document.read_usable _ _ _ hspan⟩

end JuiceSyntax
