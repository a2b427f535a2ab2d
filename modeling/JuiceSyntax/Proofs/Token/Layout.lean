/-
  Where tokens lie. `Laid lo tokens hi`: the tokens lie between the offsets `lo` and `hi`, one
  after another and each with some text of its own; the last one, and no other, is the end of
  the tokens; and the tokens of a fragment lie in the same way within the string they are in.

  `lex_laid`: so lie the tokens of every document.
-/
import JuiceSyntax.Token.Stream

namespace JuiceSyntax

inductive Laid : Nat → List Token → Nat → Prop
  | done {lo hi : Nat} {span : Span} (after : lo ≤ span.start) (before : span.start ≤ hi) : Laid lo [⟨.done, span⟩] hi
  | cons {lo hi : Nat} {token : Token} {rest : List Token} (mid : token.kind.isDone = false)
    (after : lo ≤ token.span.start) (wide : token.span.start < token.span.stop)
    (inner : ∀ multiline pieces, token.kind = .str multiline pieces →
      ∀ tokens span, .fragment tokens span ∈ pieces → Laid token.span.start tokens token.span.stop)
    (following : Laid token.span.stop rest hi) : Laid lo (token :: rest) hi

namespace Laid

variable {lo lo' hi hi' : Nat} {tokens : List Token}

theorem le (h : Laid lo tokens hi) : lo ≤ hi := by
  induction h with
  | done after before => omega
  | cons mid after wide inner following _ ih => omega

theorem mono (h : Laid lo tokens hi) (hlo : lo' ≤ lo) (hhi : hi ≤ hi') : Laid lo' tokens hi' := by
  induction h generalizing lo' with
  | done after before => exact .done (by omega) (by omega)
  | cons mid after wide inner following _ ih => exact .cons mid (by omega) wide inner (ih (Nat.le_refl _) hhi)

/-- Every token but the end has some text. -/
theorem wide (h : Laid lo tokens hi) {token : Token} (hmem : token ∈ tokens) (hmid : token.kind.isDone = false) :
    token.span.start < token.span.stop := by
  induction h with
  | done after before =>
    rw [List.mem_singleton.1 hmem] at hmid
    cases hmid
  | cons mid after wide inner following _ ih =>
    obtain rfl | hmem := List.mem_cons.1 hmem
    · exact wide
    · exact ih hmem

/-- A token that is no string, before others. -/
theorem plain {token : Token} {rest : List Token} (mid : token.kind.isDone = false) (after : lo ≤ token.span.start)
    (wide : token.span.start < token.span.stop) (h : ∀ multiline pieces, token.kind ≠ .str multiline pieces)
    (following : Laid token.span.stop rest hi) : Laid lo (token :: rest) hi :=
  .cons mid after wide (fun multiline pieces hk => absurd hk (h multiline pieces)) following

end Laid

/-! ## Widths -/

theorem byteWidth_drop_take (n : Nat) (cs : List Char) :
    byteWidth (cs.take n) + byteWidth (cs.drop n) = byteWidth cs := by
  rw [← byteWidth_append, List.take_append_drop]

theorem byteWidth_le_of_prefix {as bs : List Char} (h : as <+: bs) : byteWidth as ≤ byteWidth bs := by
  obtain ⟨cs, rfl⟩ := h
  rw [byteWidth_append]
  exact Nat.le_add_right _ _

theorem length_le_byteWidth (cs : List Char) : cs.length ≤ byteWidth cs := by
  induction cs with
  | nil => exact Nat.le_refl 0
  | cons c cs ih =>
    have hpos : 0 < c.utf8Size := Char.utf8Size_pos c
    rw [List.length_cons, byteWidth_cons]
    omega

/-- What is left of a text without its first characters is that much shorter. -/
theorem byteWidth_drop_add_le {n : Nat} {cs : List Char} (h : n ≤ cs.length) :
    n + byteWidth (cs.drop n) ≤ byteWidth cs := by
  have htake := length_le_byteWidth (cs.take n)
  rw [List.length_take, Nat.min_eq_left h] at htake
  have := byteWidth_drop_take n cs
  omega

/-! ## Fragments -/

/-- A first part that is a fragment goes up to the brace that closes it, or takes all of the content. -/
theorem firstPart_fragment_cases {multiline atLineStart closed : Bool} {content : List Char}
    (h : (firstPart multiline atLineStart content).kind = .fragment closed) :
    ∃ rest, content = '$' :: '{' :: rest ∧
      ((∃ n, literalLength [.code 0] rest = some n ∧
          firstPart multiline atLineStart content = ⟨.fragment true, '$' :: '{' :: rest.take n⟩) ∨
        literalLength [.code 0] rest = none ∧
          firstPart multiline atLineStart content = ⟨.fragment false, '$' :: '{' :: rest⟩) := by
  unfold firstPart at h ⊢
  cases hmarker : (if atLineStart then indentLength? content else none) with
  | some n =>
    rw [hmarker] at h
    cases h
  | none =>
    rw [hmarker] at h
    dsimp only at h ⊢
    split at h
    · split at h
      all_goals cases h
    · rename_i rest
      refine ⟨rest, rfl, ?_⟩
      cases hlength : literalLength [.code 0] rest with
      | some n => exact .inl ⟨n, rfl, rfl⟩
      | none => exact .inr ⟨rfl, rfl⟩
    · cases h

/-- A fragment begins with its two opening characters. -/
def Part.Opened (part : Part) : Prop := ∀ closed, part.kind = .fragment closed → 2 ≤ part.raw.length

theorem opened_firstPart (multiline atLineStart : Bool) (content : List Char) :
    (firstPart multiline atLineStart content).Opened := by
  intro closed h
  obtain ⟨rest, -, ⟨n, -, heq⟩ | ⟨-, heq⟩⟩ := firstPart_fragment_cases h
  · simp [heq]
  · simp [heq]

/-- What holds of the first part of every content holds of all parts. -/
theorem forall_cutParts {multiline : Bool} {p : Part → Prop}
    (h : ∀ atLineStart c cs, p (firstPart multiline atLineStart (c :: cs))) (fuel : Nat) (atLineStart : Bool)
    (content : List Char) : ∀ part ∈ cutParts multiline fuel atLineStart content, p part := by
  induction fuel generalizing atLineStart content with
  | zero => exact fun _ hmem => absurd hmem List.not_mem_nil
  | succ fuel ih =>
    cases content with
    | nil => exact fun _ hmem => absurd hmem List.not_mem_nil
    | cons c cs =>
      intro part hmem
      obtain rfl | hrest := List.mem_cons.1 hmem
      · exact h atLineStart c cs
      · exact ih _ _ part hrest

theorem opened_cutParts (multiline : Bool) (fuel : Nat) (atLineStart : Bool) (content : List Char) :
    ∀ part ∈ cutParts multiline fuel atLineStart content, part.Opened :=
  forall_cutParts (fun _ _ _ => opened_firstPart _ _ _) fuel atLineStart content

/-- A fragment, its braces and all, takes at least two bytes more than what is inside. -/
theorem byteWidth_inner_add_le {part : Part} (h : 2 ≤ part.raw.length) : 2 + byteWidth part.inner ≤ byteWidth part.raw := by
  have hdrop := byteWidth_drop_add_le h
  have hinner : byteWidth part.inner ≤ byteWidth (part.raw.drop 2) := by
    unfold Part.inner
    dsimp only
    split
    · exact byteWidth_le_of_prefix (List.dropLast_prefix _)
    · exact Nat.le_refl _
  omega

/-- The content of a multi-line body and what comes before it take no more than the body. -/
theorem byteWidth_multilineContent? {body lead content : List Char}
    (h : multilineContent? body = some (lead, content)) : byteWidth lead + byteWidth content ≤ byteWidth body := by
  unfold multilineContent? at h
  split at h
  · rename_i rest hrest
    obtain ⟨rfl, hcontent⟩ := Prod.mk.inj (Option.some.inj h)
    have hprefix : content <+: rest := by
      rw [← hcontent]
      split
      · exact List.nil_prefix
      · rename_i kept hkept
        have hsuffix : kept <:+ rest.reverse := (List.suffix_cons '\n' kept).trans (hkept ▸ List.dropWhile_suffix _)
        rw [← List.reverse_prefix, List.reverse_reverse] at hsuffix
        exact hsuffix
      · exact List.prefix_refl rest
    have hbody : byteWidth body = byteWidth (body.takeWhile isLineBlank) + byteWidth ('\n' :: rest) := by
      rw [← hrest, ← byteWidth_append, List.takeWhile_append_dropWhile]
    have hwidth := byteWidth_le_of_prefix hprefix
    rw [hbody, byteWidth_append, byteWidth_cons, byteWidth_cons, byteWidth_nil]
    omega
  · cases h

/-! ## Readings of text -/

/-- The fragments of a text are laid where they stand in it, if they are lexed at all. -/
def LaidFragments (fragment? : Option (Nat → List Char → Lexed)) : Prop :=
  ∀ lex, fragment? = some lex → ∀ offset text, Laid offset (lex offset text).tokens (offset + byteWidth text)

section

variable {fragment? : Option (Nat → List Char → Lexed)}

theorem readParts_laid (h : LaidFragments fragment?) (offset : Nat) {ps : List Part} (hopened : ∀ part ∈ ps, part.Opened)
    {tokens : List Token} {span : Span} (hmem : .fragment tokens span ∈ (readParts fragment? offset ps).pieces) :
    Laid offset tokens (offset + byteWidth (ps.flatMap (·.raw))) := by
  induction ps generalizing offset with
  | nil => exact absurd hmem List.not_mem_nil
  | cons part rest ih =>
    have hrest (hmem : .fragment tokens span ∈ (readParts fragment? (offset + byteWidth part.raw) rest).pieces) :
        Laid offset tokens (offset + byteWidth ((part :: rest).flatMap (·.raw))) := by
      rw [List.flatMap_cons, byteWidth_append]
      exact (ih _ (fun p hp => hopened p (List.mem_cons_of_mem _ hp)) hmem).mono (by omega) (by omega)
    have hhere := hopened part List.mem_cons_self
    unfold readParts at hmem
    unfold Part.Opened at hhere
    have hinner {lex : Nat → List Char → Lexed} (hlex : fragment? = some lex) (hlen : 2 ≤ part.raw.length) :
        Laid offset (lex (offset + 2) part.inner).tokens (offset + byteWidth ((part :: rest).flatMap (·.raw))) := by
      have hwidth := byteWidth_inner_add_le hlen
      rw [List.flatMap_cons, byteWidth_append]
      exact (h lex hlex (offset + 2) part.inner).mono (by omega) (by omega)
    cases hkind : part.kind with
    | fragment closed =>
      rw [hkind] at hmem
      cases hlex : fragment? with
      | none =>
        subst hlex
        exact hrest hmem
      | some lex =>
        subst hlex
        obtain heq | hmem := List.mem_cons.1 hmem
        · cases heq
          exact hinner rfl (hhere closed hkind)
        · exact hrest hmem
    | _ =>
      rw [hkind] at hmem
      obtain heq | hmem := List.mem_cons.1 hmem
      · cases heq
      · exact hrest hmem

/-- Whatever the layout of a string, its parts are those of a content that begins after the
quote. -/
theorem readString_parts (fragment? : Option (Nat → List Char → Lexed)) (closed : Bool) {raw : List Char}
    (hraw : raw ≠ []) {span : Span} (hspan : span.start + byteWidth raw ≤ span.stop) :
    ∃ multiline offset content, span.start ≤ offset ∧ offset + byteWidth content ≤ span.stop ∧
      readString fragment? closed raw span =
        ⟨[⟨.str multiline (readParts fragment? offset (parts multiline content)).pieces, span⟩],
          (readParts fragment? offset (parts multiline content)).comments,
          (if closed then [] else [⟨.unterminatedString, span⟩]) ++
            (readParts fragment? offset (parts multiline content)).faults⟩ := by
  have hquote : 1 + byteWidth (raw.drop 1) ≤ byteWidth raw := byteWidth_drop_add_le (List.length_pos_iff.2 hraw)
  have htext : byteWidth (if closed then (raw.drop 1).dropLast else raw.drop 1) ≤ byteWidth (raw.drop 1) := by
    split
    · exact byteWidth_le_of_prefix (List.dropLast_prefix _)
    · exact Nat.le_refl _
  unfold readString
  dsimp only
  cases hlines : multilineContent? (if closed then (raw.drop 1).dropLast else raw.drop 1) with
  | none =>
    refine ⟨_, _, _, ?_, ?_, rfl⟩
    · omega
    · dsimp only [byteWidth_nil]
      omega
  | some found =>
    obtain ⟨lead, content⟩ := found
    have hwidth := byteWidth_multilineContent? hlines
    refine ⟨_, _, _, ?_, ?_, rfl⟩
    · omega
    · dsimp only
      omega

theorem readString_laid (h : LaidFragments fragment?) (closed : Bool) {raw : List Char} (hraw : raw ≠ []) (span : Span)
    (hspan : span.start + byteWidth raw ≤ span.stop) :
    ∃ multiline pieces, (readString fragment? closed raw span).tokens = [⟨.str multiline pieces, span⟩] ∧
      ∀ tokens inner, .fragment tokens inner ∈ pieces → Laid span.start tokens span.stop := by
  obtain ⟨multiline, offset, content, hoffset, hcontent, heq⟩ := readString_parts fragment? closed hraw hspan
  rw [heq]
  refine ⟨multiline, _, rfl, fun tokens inner hmem => ?_⟩
  have hlaid := readParts_laid h offset (opened_cutParts multiline _ _ content) hmem
  rw [flatMap_raw_cutParts multiline _ _ content (Nat.le_refl _)] at hlaid
  exact hlaid.mono hoffset hcontent

/-- A lexeme adds a token where it stands, or none. -/
theorem readLexeme_laid (h : LaidFragments fragment?) (offset : Nat) {lexeme : Lexeme} (hraw : lexeme.raw ≠ [])
    {rest : List Token} {hi : Nat} (hrest : Laid (offset + byteWidth lexeme.raw) rest hi) :
    Laid offset ((readLexeme fragment? offset lexeme).tokens ++ rest) hi := by
  have hwide : 0 < byteWidth lexeme.raw :=
    Nat.lt_of_lt_of_le (List.length_pos_iff.2 hraw) (length_le_byteWidth _)
  have hskip : Laid offset rest hi := hrest.mono (Nat.le_add_right _ _) (Nat.le_refl _)
  have htoken {kind : Kind} (mid : kind.isDone = false) (hk : ∀ multiline pieces, kind ≠ .str multiline pieces) :
      Laid offset (⟨kind, ⟨offset, offset + byteWidth lexeme.raw⟩⟩ :: rest) hi :=
    .plain mid (Nat.le_refl _) (Nat.lt_add_of_pos_right hwide) hk hrest
  unfold readLexeme
  cases lexeme.kind with
  | blank => exact hskip
  | comment => exact hskip
  | stray => exact hskip
  | string closed =>
    obtain ⟨multiline, pieces, htokens, hpieces⟩ :=
      readString_laid h closed hraw ⟨offset, offset + byteWidth lexeme.raw⟩ (Nat.le_refl _)
    dsimp only
    rw [htokens]
    refine .cons rfl (Nat.le_refl _) (Nat.lt_add_of_pos_right hwide) (fun multiline' pieces' hk tokens span hmem => ?_) hrest
    cases hk
    exact hpieces tokens span hmem
  | _ => exact htoken rfl (by simp)

theorem readLexemes_laid (h : LaidFragments fragment?) (offset : Nat) {lexemes : List Lexeme}
    (hraw : ∀ lexeme ∈ lexemes, lexeme.raw ≠ []) :
    Laid offset (readLexemes fragment? offset lexemes).tokens (offset + byteWidth (lexemes.flatMap (·.raw))) := by
  induction lexemes generalizing offset with
  | nil => exact .done (Nat.le_refl _) (Nat.le_add_right _ _)
  | cons lexeme rest ih =>
    have hrest := ih (offset + byteWidth lexeme.raw) fun l hl => hraw l (List.mem_cons_of_mem _ hl)
    rw [readLexemes, Lexed.tokens_append, List.flatMap_cons, byteWidth_append, ← Nat.add_assoc]
    exact readLexeme_laid h offset (hraw lexeme List.mem_cons_self) hrest

end

theorem mem_cutLexemes {fuel : Nat} {text : List Char} {lexeme : Lexeme} (h : lexeme ∈ cutLexemes fuel text) :
    ∃ c rest, lexeme = firstLexeme c rest := by
  induction fuel generalizing text with
  | zero => exact absurd h List.not_mem_nil
  | succ fuel ih =>
    cases text with
    | nil => exact absurd h List.not_mem_nil
    | cons c rest =>
      obtain rfl | hrest := List.mem_cons.1 h
      · exact ⟨c, rest, rfl⟩
      · exact ih hrest

theorem raw_ne_nil_cutLexemes (fuel : Nat) (text : List Char) :
    ∀ lexeme ∈ cutLexemes fuel text, lexeme.raw ≠ [] := by
  intro lexeme hmem
  obtain ⟨c, rest, rfl⟩ := mem_cutLexemes hmem
  exact List.length_pos_iff.1 (firstLexeme_length_pos c rest)

theorem lexAt_laid (limit : Option Nat) (levels offset : Nat) (text : List Char) :
    Laid offset (lexAt limit levels offset text).tokens (offset + byteWidth text) := by
  have hlexemes {fragment? : Option (Nat → List Char → Lexed)} (h : LaidFragments fragment?) (offset : Nat)
      (text : List Char) : Laid offset (readLexemes fragment? offset (lexemes text)).tokens (offset + byteWidth text) := by
    have hlaid := readLexemes_laid h offset (raw_ne_nil_cutLexemes text.length text)
    rw [flatMap_raw_cutLexemes _ text (Nat.le_refl _)] at hlaid
    exact hlaid
  induction levels generalizing offset text with
  | zero =>
    have hnone : LaidFragments none := fun _ hlex => nomatch hlex
    exact hlexemes hnone offset text
  | succ levels ih =>
    refine hlexemes (fun lex hlex => ?_) offset text
    obtain rfl := Option.some.inj hlex
    exact ih

/-- The tokens of a document lie in it one after another. -/
theorem lex_laid (source : String) : ∃ lo hi, Laid lo (lex source).tokens hi :=
  ⟨_, _, lexAt_laid (some faultLimit) fragmentLimit _ _⟩

end JuiceSyntax
