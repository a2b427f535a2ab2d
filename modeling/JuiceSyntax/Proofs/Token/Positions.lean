/-
  Where everything stands that is lexed from a document: tokens and the pieces of strings at any depth,
  comments and faults. Each is the span of a stretch of the document, since a text that stands in it is cut
  into lexemes that do, and the content of a string into parts that do.

  `lex_usable`: all these spans can be used to slice the document, and so can that of the `#!` line.
-/
import JuiceSyntax.Proofs.Source.Usable
import JuiceSyntax.Proofs.Token.Literals
import JuiceSyntax.Proofs.Tree.Elements

namespace JuiceSyntax

/-- The spans of the tokens, comments and faults of a text. -/
structure Lexed.Usable (source : String) (lexed : Lexed) : Prop where
  tokens : ∀ span ∈ tokenSpans lexed.tokens, span.Usable source
  comments : ∀ comment ∈ lexed.comments, comment.span.Usable source
  faults : ∀ fault ∈ lexed.faults, fault.span.Usable source

/-- The spans of the pieces, comments and faults of a body. -/
structure Body.Usable (source : String) (body : Body) : Prop where
  pieces : ∀ span ∈ pieceSpans body.pieces, span.Usable source
  comments : ∀ comment ∈ body.comments, comment.span.Usable source
  faults : ∀ fault ∈ body.faults, fault.span.Usable source

/-- Fragments are lexed to usable spans where they stand in the document. -/
def UsableFragments (source : String) (fragment? : Option (Nat → List Char → Lexed)) : Prop :=
  ∀ lex, fragment? = some lex → ∀ offset text, StandsAt source offset text → (lex offset text).Usable source

variable {source : String} {fragment? : Option (Nat → List Char → Lexed)} {offset : Nat}

theorem Lexed.Usable.empty : Lexed.Usable source .empty := ⟨nofun, nofun, nofun⟩

theorem Lexed.Usable.append {a b : Lexed} (ha : a.Usable source) (hb : b.Usable source) : (a ++ b).Usable source where
  tokens := by
    rw [Lexed.tokens_append, tokenSpans_eq_flatMap, List.flatMap_append, ← tokenSpans_eq_flatMap, ← tokenSpans_eq_flatMap]
    exact List.forall_mem_append.2 ⟨ha.tokens, hb.tokens⟩
  comments := List.forall_mem_append.2 ⟨ha.comments, hb.comments⟩
  faults := List.forall_mem_append.2 ⟨ha.faults, hb.faults⟩

/-! ## Strings -/

/-- The inside of a fragment stands behind its two opening characters. -/
theorem StandsAt.inner {part : Part} {closed : Bool} (h : StandsAt source offset part.raw)
    (hraw : part.raw = '$' :: '{' :: part.inner ++ (if closed then ['}'] else [])) :
    StandsAt source (offset + 2) part.inner := by
  have hopening : byteWidth ['$', '{'] = 2 := by decide
  rw [hraw, show '$' :: '{' :: part.inner = ['$', '{'] ++ part.inner from rfl] at h
  have hinner := h.left.right
  rwa [hopening] at hinner

theorem readParts_usable (hfragments : UsableFragments source fragment?) {ps : List Part}
    (h : StandsAt source offset (ps.flatMap (·.raw))) (hapt : ∀ part ∈ ps, part.Apt) :
    (readParts fragment? offset ps).Usable source := by
  induction ps generalizing offset with
  | nil => exact ⟨nofun, nofun, nofun⟩
  | cons part rest ih =>
    obtain ⟨hpart, hrest⟩ := List.forall_mem_cons.1 hapt
    rw [List.flatMap_cons] at h
    have hspan := h.left.usable
    have hbody := ih h.right hrest
    unfold readParts
    dsimp only
    cases hkind : part.kind with
    | fragment closed =>
      cases hlex : fragment? with
      | none =>
        subst hlex
        exact ⟨hbody.pieces, hbody.comments, List.forall_mem_cons.2 ⟨hspan, hbody.faults⟩⟩
      | some lex =>
        subst hlex
        have hinner := hfragments lex rfl _ _ (h.left.inner (hpart.fragment closed hkind))
        refine ⟨?_, List.forall_mem_append.2 ⟨hinner.comments, hbody.comments⟩,
          List.forall_mem_append.2 ⟨hinner.faults, hbody.faults⟩⟩
        rw [pieceSpans]
        exact List.forall_mem_cons.2 ⟨hspan, List.forall_mem_append.2 ⟨hinner.tokens, hbody.pieces⟩⟩
    | badEscape value =>
      refine ⟨?_, hbody.comments, List.forall_mem_cons.2 ⟨hspan, hbody.faults⟩⟩
      rw [pieceSpans]
      exact List.forall_mem_cons.2 ⟨hspan, hbody.pieces⟩
    | _ =>
      refine ⟨?_, hbody.comments, hbody.faults⟩
      rw [pieceSpans]
      exact List.forall_mem_cons.2 ⟨hspan, hbody.pieces⟩

theorem readString_usable (hfragments : UsableFragments source fragment?) {closed : Bool} {raw : List Char}
    (hraw : raw = '"' :: literalBody closed raw ++ (if closed then ['"'] else [])) (h : StandsAt source offset raw) :
    (readString fragment? closed raw ⟨offset, offset + byteWidth raw⟩).Usable source := by
  have hquote : byteWidth ['"'] = 1 := by decide
  have hspan := h.usable
  obtain ⟨multiline, lead, content, trail, hbody, -, heq⟩ := readString_eq closed raw
  have hcontent : StandsAt source (offset + 1 + byteWidth lead) content := by
    rw [hraw, hbody, ← List.singleton_append] at h
    have hmiddle := h.left.right.left.right
    rwa [hquote] at hmiddle
  have hparts : (readParts fragment? (offset + 1 + byteWidth lead) (parts multiline content)).Usable source :=
    readParts_usable hfragments (by rw [flatMap_raw_parts]; exact hcontent) (apt_parts multiline content)
  rw [heq]
  refine ⟨?_, hparts.comments, List.forall_mem_append.2 ⟨?_, hparts.faults⟩⟩
  · rw [tokenSpans, Kind.spans]
    exact List.forall_mem_cons.2 ⟨hspan, List.forall_mem_append.2 ⟨hparts.pieces, List.forall_mem_nil _⟩⟩
  · cases closed with
    | true => exact List.forall_mem_nil _
    | false => exact List.forall_mem_singleton.2 hspan

/-! ## Texts -/

theorem readLexeme_usable (hfragments : UsableFragments source fragment?) {c : Char} {rest : List Char}
    (h : StandsAt source offset (firstLexeme c rest).raw) :
    (readLexeme fragment? offset (firstLexeme c rest)).Usable source := by
  have hspan := h.usable
  have added (kind : Kind) (hkind : kind.spans = []) (cause? : Option LexCause) :
      Lexed.Usable source ⟨[⟨kind, ⟨offset, offset + byteWidth (firstLexeme c rest).raw⟩⟩], [],
        (cause?.map fun cause => (⟨cause, ⟨offset, offset + byteWidth (firstLexeme c rest).raw⟩⟩ : LexFault)).toList⟩ := by
    refine ⟨?_, List.forall_mem_nil _, fun fault hmem => ?_⟩
    · rw [tokenSpans, hkind]
      exact List.forall_mem_singleton.2 hspan
    · cases cause? with
      | none => exact absurd hmem List.not_mem_nil
      | some cause => exact List.mem_singleton.1 hmem ▸ hspan
  unfold readLexeme
  cases hkind : (firstLexeme c rest).kind with
  | blank => exact .empty
  | comment => exact ⟨List.forall_mem_nil _, List.forall_mem_singleton.2 hspan, List.forall_mem_nil _⟩
  | stray =>
    refine ⟨List.forall_mem_nil _, List.forall_mem_nil _, fun fault hmem => ?_⟩
    obtain ⟨_, -, rfl⟩ := List.mem_map.1 hmem
    exact hspan
  | string closed => exact readString_usable hfragments (raw_of_string hkind).1 h
  | integer radix => exact added _ rfl _
  | decimal => exact added _ rfl _
  | _ => exact added _ rfl none

theorem readLexemes_usable (hfragments : UsableFragments source fragment?) {ls : List Lexeme}
    (hfirst : ∀ lexeme ∈ ls, ∃ c rest, lexeme = firstLexeme c rest) (h : StandsAt source offset (ls.flatMap (·.raw))) :
    (readLexemes fragment? offset ls).Usable source := by
  induction ls generalizing offset with
  | nil =>
    refine ⟨?_, List.forall_mem_nil _, List.forall_mem_nil _⟩
    rw [readLexemes, tokenSpans, Kind.spans]
    · exact List.forall_mem_singleton.2 h.point
    · intro multiline pieces hkind
      cases hkind
  | cons lexeme rest ih =>
    obtain ⟨⟨c, cs, rfl⟩, hrest⟩ := List.forall_mem_cons.1 hfirst
    rw [List.flatMap_cons] at h
    exact (readLexeme_usable hfragments h.left).append (ih hrest h.right)

theorem lexAt_usable (limit : Option Nat) (levels : Nat) {text : List Char} (h : StandsAt source offset text) :
    (lexAt limit levels offset text).Usable source := by
  have capped {lexed : Lexed} (h : lexed.Usable source) :
      Lexed.Usable source { lexed with faults := capFaults limit lexed.faults } := by
    refine ⟨h.tokens, h.comments, fun fault hmem => h.faults fault ?_⟩
    cases limit with
    | none => exact hmem
    | some n => exact List.mem_of_mem_take hmem
  have read {fragment? : Option (Nat → List Char → Lexed)} (hfragments : UsableFragments source fragment?) {offset : Nat}
      {text : List Char} (h : StandsAt source offset text) : (readLexemes fragment? offset (lexemes text)).Usable source :=
    readLexemes_usable hfragments (fun _ => mem_cutLexemes) (by rw [flatMap_raw_lexemes]; exact h)
  have none : UsableFragments source none := fun _ hlex => nomatch hlex
  induction levels generalizing offset text with
  | zero => exact capped (read none h)
  | succ levels ih =>
    refine capped (read (fun lex hlex offset text hstands => ?_) h)
    cases hlex
    exact ih hstands

theorem lex_usable (source : String) :
    (lex source).toLexed.Usable source ∧ ∀ span, (lex source).shebang = some span → span.Usable source := by
  have hstands : StandsAt source 0 (shebangLine source.toList ++ source.toList.drop (shebangLine source.toList).length) := by
    rw [← (List.prefix_iff_eq_append.1 (shebangLine_le source.toList)).symm]
    exact .whole source
  have hbehind := hstands.right
  rw [Nat.zero_add] at hbehind
  refine ⟨lexAt_usable (some faultLimit) fragmentLimit hbehind, fun span hspan => ?_⟩
  have hline := hstands.left.usable
  rw [Nat.zero_add] at hline
  unfold lex lexWithin at hspan
  dsimp only at hspan
  split at hspan
  · cases hspan
  · cases hspan
    exact hline

end JuiceSyntax
