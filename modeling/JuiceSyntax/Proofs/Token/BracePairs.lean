/-
  Braces of a document in pairs. What is in a fragment of a closed string is balanced, so if no string
  of a text is open and the braces of its own tokens are balanced, every brace in it is closed, at
  whatever depth (`LexedFrom.bracesMatch`).

  `lex_bracesMatch`: a document in which no string is open is one of which the last token is no string.
-/
import JuiceSyntax.Proofs.Token.ClosedStrings

namespace JuiceSyntax

/-- What is lexed from the text of a closed fragment is balanced, and no string in it is open. -/
theorem LexedFrom.fragment_closes {source : String} {levels : Nat} {before text after : List Char} {tokens inner : List Token}
    {token : Token} {multiline : Bool} {pieces : List Piece} {span : Span}
    (h : LexedFrom source levels before text after tokens) (hclosed : ∀ lexeme ∈ lexemes text, lexeme.kind ≠ .string false)
    (hmem : token ∈ tokens) (hliteral : token.kind = .str multiline pieces) (hpiece : .fragment inner span ∈ pieces) :
    ∃ levels' before' text' after', levels' < levels ∧ LexedFrom source levels' before' text' after' inner ∧
      (∀ lexeme ∈ lexemes text', lexeme.kind ≠ .string false) ∧ Closes 0 inner := by
  obtain ⟨front, back, closed, lead, content, trail, ps, part, qs, closed', levels', rfl, hread, hparts, hkind, -, hinner⟩ :=
    h.fragment hmem hliteral hpiece
  obtain rfl : closed = true := by
    cases closed with
    | true => rfl
    | false => exact absurd rfl (hclosed _ (hread.lexemes_eq ▸ List.mem_append_right _ List.mem_cons_self))
  have hholds : QuoteMode.text.Holds (lead ++ content ++ trail) := hread.scan
  obtain ⟨hopen, -, hfragment⟩ :=
    scan_parts (tail_of_margin hread.margins.trail_blank) (scan_lead hread.margins.lead_blank hholds).2 hparts
  obtain rfl : closed' = true := by
    cases closed' with
    | true => rfl
    | false => exact absurd hkind hopen
  have hcloses : (∀ lexeme ∈ lexemes part.inner, lexeme.kind ≠ .string false) ∧ Closes 0 inner := by
    rw [hinner.tokens_eq, lexAt_none]
    exact closes_of_scan (hfragment hkind)
  exact ⟨levels', _, part.inner, _, Nat.lt_succ_self _, hinner, hcloses⟩

theorem LexedFrom.bracesMatch {source : String} {levels : Nat} {before text after : List Char} {tokens : List Token}
    (h : LexedFrom source levels before text after tokens) (hclosed : ∀ lexeme ∈ lexemes text, lexeme.kind ≠ .string false)
    (hcloses : Closes 0 tokens) : BracesMatch tokens := by
  induction levels using Nat.strongRecOn generalizing before text after tokens with
  | ind levels ih =>
    have hlaid := lexAt_laid none levels (byteWidth before) text
    rw [← h.tokens_eq] at hlaid
    refine hlaid.bracesMatch hcloses fun token hmem multiline pieces hliteral inner span hpiece => ?_
    obtain ⟨levels', _, _, _, hlt, hinner, hnone, hbalanced⟩ := h.fragment_closes hclosed hmem hliteral hpiece
    exact ih levels' hlt hinner hnone hbalanced

/-- An open string is the last token before the end. -/
theorem closed_of_last {levels offset : Nat} {text : List Char} {front : List Token} {token done : Token}
    (h : (lexAt none levels offset text).tokens = front ++ [token, done])
    (hliteral : ∀ multiline pieces, token.kind ≠ .str multiline pieces) :
    ∀ lexeme ∈ lexemes text, lexeme.kind ≠ .string false := by
  intro lexeme hmem hopen
  obtain ⟨a, b, hsplit⟩ := List.append_of_mem hmem
  have hlast : b = [] := by
    have hpairwise := pairwise_cutLexemes text.length text
    rw [show cutLexemes text.length text = a ++ lexeme :: b from hsplit] at hpairwise
    cases b with
    | nil => rfl
    | cons next b =>
      exact absurd hopen (List.rel_of_pairwise_cons (List.pairwise_append.1 hpairwise).2.1 List.mem_cons_self)
  obtain ⟨multiline, lead, content, trail, -, -, hread⟩ := readString_eq false lexeme.raw
  rw [lexAt_none, hsplit, hlast, readLexemes_tokens, stretches_append, List.flatMap_append] at h
  have hstring : ∃ pieces span, ((stretches (offset + byteWidth (a.flatMap (·.raw))) [lexeme]).flatMap fun s =>
      (s.lexed (fragmentsAt none levels)).tokens) = [⟨.str multiline pieces, span⟩] := by
    simp only [stretches, List.flatMap_singleton, Stretch.lexed, readLexeme, hopen, hread]
    exact ⟨_, _, rfl⟩
  obtain ⟨pieces, span, hstring⟩ := hstring
  rw [hstring, List.append_assoc] at h
  have htoken := (List.cons.inj (List.append_inj' h rfl).2).1
  exact hliteral multiline pieces (by rw [← htoken])

/-- In a source of which the last token is no string, every brace is closed if those that stand in no
string are. -/
theorem lex_bracesMatch {source : String} {front : List Token} {token done : Token}
    (h : (lex source).tokens = front ++ [token, done]) (hliteral : ∀ multiline pieces, token.kind ≠ .str multiline pieces)
    (hcloses : Closes 0 (lex source).tokens) : BracesMatch (lex source).tokens := by
  have hstream : Stream source (lex source).tokens := .whole
  obtain ⟨levels, before, text, after, hlexed⟩ := hstream.stands
  exact hlexed.bracesMatch (closed_of_last (hlexed.tokens_eq ▸ h) hliteral) hcloses

end JuiceSyntax
