/-
  The streams of a document: the tokens of its whole text, and those in the fragments of the
  strings of a stream.

  `Stream.stands`: every stream is what is lexed from a part of the document, at the place of
  that part, and its faults are faults of the document.
-/
import JuiceSyntax.Proofs.Token.Moving
import JuiceSyntax.Proofs.Token.FaultLimit
import JuiceSyntax.Proofs.Token.Tiling

namespace JuiceSyntax

inductive Stream (source : String) : List Token → Prop
  | whole : Stream source (lex source).tokens
  | fragment {tokens inner : List Token} {token : Token} {multiline : Bool} {pieces : List Piece} {span : Span}
    (outer : Stream source tokens) (mem : token ∈ tokens) (literal : token.kind = .str multiline pieces)
    (piece : .fragment inner span ∈ pieces) : Stream source inner

/-- The tokens are lexed from this part of the document. -/
structure LexedFrom (source : String) (levels : Nat) (before text after : List Char) (tokens : List Token) : Prop where
  source_eq : source.toList = before ++ text ++ after
  tokens_eq : tokens = (lexAt none levels (byteWidth before) text).tokens
  levels_le : levels ≤ fragmentLimit
  faults : ∀ fault ∈ (lexAt none levels (byteWidth before) text).faults, fault ∈ (lexWithin none source).faults
  /-- The faults of the document in this part of it are those of the tokens. -/
  within : ∀ fault ∈ (lexWithin none source).faults, byteWidth before ≤ fault.span.start →
    fault.span.stop ≤ byteWidth before + byteWidth text → fault ∈ (lexAt none levels (byteWidth before) text).faults

/-! ## Stretches of tokens -/

theorem stretches_append (offset : Nat) (front back : List Lexeme) :
    stretches offset (front ++ back) = stretches offset front ++ stretches (offset + byteWidth (front.flatMap (·.raw))) back := by
  induction front generalizing offset with
  | nil => rfl
  | cons lexeme front ih =>
    rw [List.cons_append, stretches, stretches, ih, List.flatMap_cons, byteWidth_append, Nat.add_assoc, List.cons_append]

theorem exists_of_stretches_eq {offset : Nat} {ls : List Lexeme} {front back : List Stretch}
    (h : stretches offset ls = front ++ back) :
    ∃ a b, ls = a ++ b ∧ front = stretches offset a ∧ back = stretches (offset + byteWidth (a.flatMap (·.raw))) b := by
  refine ⟨ls.take front.length, ls.drop front.length, (List.take_append_drop _ _).symm, ?_⟩
  have hlength (offset : Nat) (ls : List Lexeme) : (stretches offset ls).length = ls.length := by
    rw [← List.length_map (·.lexeme), map_lexeme_stretches]
  have hle := congrArg List.length h
  rw [hlength, List.length_append] at hle
  rw [← List.take_append_drop front.length ls, stretches_append] at h
  exact (List.append_inj h (by rw [hlength, List.length_take]; omega)).imp Eq.symm Eq.symm

theorem readLexemes_tokens (fragment? : Option (Nat → List Char → Lexed)) (offset : Nat) (ls : List Lexeme) :
    (readLexemes fragment? offset ls).tokens = (stretches offset ls).flatMap (fun s => (s.lexed fragment?).tokens) ++
      [⟨.done, .point (offset + byteWidth (ls.flatMap (·.raw)))⟩] := by
  rw [readLexemes_stretches]

/-- An element of what is gathered from a list comes from one place in it. -/
theorem exists_of_flatMap_eq {α β : Type} {f : α → List β} (hf : ∀ x, (f x).length ≤ 1) {l : List α} {pre post : List β} {b : β}
    (h : l.flatMap f = pre ++ b :: post) :
    ∃ front x back, l = front ++ x :: back ∧ front.flatMap f = pre ∧ f x = [b] ∧ back.flatMap f = post := by
  induction l generalizing pre with
  | nil => simp at h
  | cons x l ih =>
    rw [List.flatMap_cons] at h
    match hx : f x with
    | [] =>
      rw [hx, List.nil_append] at h
      obtain ⟨front, y, back, rfl, hfront, hy, hback⟩ := ih h
      exact ⟨x :: front, y, back, rfl, by rw [List.flatMap_cons, hx, hfront]; rfl, hy, hback⟩
    | [y] =>
      rw [hx, List.singleton_append] at h
      cases pre with
      | nil =>
        obtain ⟨rfl, rfl⟩ := List.cons.inj h
        exact ⟨[], x, l, rfl, rfl, hx, rfl⟩
      | cons z pre =>
        obtain ⟨rfl, hrest⟩ := List.cons.inj h
        obtain ⟨front, y', back, rfl, hfront, hy, hback⟩ := ih hrest
        exact ⟨x :: front, y', back, rfl, by rw [List.flatMap_cons, hx, hfront]; rfl, hy, hback⟩
    | _ :: _ :: _ =>
      have := hf x
      rw [hx] at this
      simp at this

theorem length_tokens_stretch (fragment? : Option (Nat → List Char → Lexed)) (s : Stretch) : (s.lexed fragment?).tokens.length ≤ 1 := by
  cases hadds : s.lexeme.kind.addsToken with
  | false => rw [tokens_of_not_addsToken fragment? hadds]; exact Nat.zero_le 1
  | true =>
    obtain ⟨token, -, -, htokens, -⟩ := tokens_of_addsToken fragment? hadds
    rw [htokens]
    exact Nat.le_refl 1

/-- A token is read from one of the lexemes, and stands where that does. -/
structure ReadFrom (fragment? : Option (Nat → List Char → Lexed)) (offset : Nat) (ls front back : List Lexeme) (lexeme : Lexeme)
    (token : Token) : Prop where
  lexemes_eq : ls = front ++ lexeme :: back
  read : (readLexeme fragment? (offset + byteWidth (front.flatMap (·.raw))) lexeme).tokens = [token]
  adds : lexeme.kind.addsToken = true
  start : token.span.start = offset + byteWidth (front.flatMap (·.raw))
  stop : token.span.stop = offset + byteWidth (front.flatMap (·.raw)) + byteWidth lexeme.raw

theorem readFrom_of_stretch {fragment? : Option (Nat → List Char → Lexed)} {offset : Nat} {ls : List Lexeme}
    {front back : List Stretch} {s : Stretch} {token : Token} (h : stretches offset ls = front ++ s :: back)
    (htoken : (s.lexed fragment?).tokens = [token]) :
    ∃ a b, front = stretches offset a ∧ back = stretches (offset + byteWidth ((a ++ [s.lexeme]).flatMap (·.raw))) b ∧
      ReadFrom fragment? offset ls a b s.lexeme token := by
  obtain ⟨a, b, hls, hfront, hback⟩ := exists_of_stretches_eq h
  cases b with
  | nil => cases hback
  | cons lexeme b =>
    rw [stretches] at hback
    obtain ⟨rfl, hrest⟩ := List.cons.inj hback
    have hadds : (⟨offset + byteWidth (a.flatMap (·.raw)), lexeme⟩ : Stretch).lexeme.kind.addsToken = true := by
      by_contra hnot
      rw [tokens_of_not_addsToken fragment? (by simpa using hnot)] at htoken
      cases htoken
    obtain ⟨token', -, hspan, htoken', -⟩ := tokens_of_addsToken fragment? hadds
    obtain rfl : token' = token := by simpa using htoken'.symm.trans htoken
    refine ⟨a, b, hfront, ?_, hls, htoken, hadds, ?_, ?_⟩
    · rw [hrest, List.flatMap_append, List.flatMap_singleton, byteWidth_append, Nat.add_assoc]
    · rw [hspan]; rfl
    · rw [hspan]; rfl

/-- Every token but the last is read from a lexeme. -/
theorem exists_readFrom {fragment? : Option (Nat → List Char → Lexed)} {offset : Nat} {ls : List Lexeme} {token : Token}
    (h : token ∈ (readLexemes fragment? offset ls).tokens) (hmid : token.kind.isDone = false) :
    ∃ front back lexeme, ReadFrom fragment? offset ls front back lexeme token := by
  rw [readLexemes_tokens] at h
  obtain hmem | hlast := List.mem_append.1 h
  · obtain ⟨pre, post, hsplit⟩ := List.append_of_mem hmem
    obtain ⟨front, s, back, hstretches, -, htoken, -⟩ := exists_of_flatMap_eq (length_tokens_stretch fragment?) hsplit
    obtain ⟨a, b, -, -, hread⟩ := readFrom_of_stretch hstretches htoken
    exact ⟨a, b, s.lexeme, hread⟩
  · rw [List.mem_singleton.1 hlast] at hmid
    cases hmid

theorem readLexemes_faults (fragment? : Option (Nat → List Char → Lexed)) (offset : Nat) (ls : List Lexeme) :
    (readLexemes fragment? offset ls).faults = (stretches offset ls).flatMap fun s => (s.lexed fragment?).faults := by
  rw [readLexemes_stretches]

/-- What lexemes add is among what they add with others. -/
theorem faults_of_lexemes {fragment? : Option (Nat → List Char → Lexed)} {offset : Nat} {front middle back : List Lexeme} :
    ∀ fault ∈ (readLexemes fragment? (offset + byteWidth (front.flatMap (·.raw))) middle).faults,
      fault ∈ (readLexemes fragment? offset (front ++ middle ++ back)).faults := by
  intro fault hmem
  rw [readLexemes_faults] at hmem ⊢
  rw [stretches_append, stretches_append, List.flatMap_append, List.flatMap_append]
  exact List.mem_append_left _ (List.mem_append_right _ hmem)

/-- A fault in the text of one lexeme is a fault of it. -/
theorem fault_of_lexeme {levels offset : Nat} {text : List Char} {front back : List Lexeme} {lexeme : Lexeme}
    (hls : lexemes text = front ++ lexeme :: back) {fault : LexFault} (hmem : fault ∈ (lexAt none levels offset text).faults)
    (hlo : offset + byteWidth (front.flatMap (·.raw)) ≤ fault.span.start)
    (hhi : fault.span.stop ≤ offset + byteWidth (front.flatMap (·.raw)) + byteWidth lexeme.raw) :
    fault ∈ (readLexeme (fragmentsAt none levels) (offset + byteWidth (front.flatMap (·.raw))) lexeme).faults := by
  have hwide : ∀ l ∈ front ++ lexeme :: back, l.raw ≠ [] := hls ▸ raw_ne_nil_cutLexemes text.length text
  have hpart (offset : Nat) {ls : List Lexeme} (hsub : ls ⊆ front ++ lexeme :: back) :=
    readLexemes_between (fragmentsAt_between none levels) offset fun l hl => hwide l (hsub hl)
  rw [lexAt_none, hls, readLexemes_faults, stretches_append, stretches, List.flatMap_append, List.flatMap_cons] at hmem
  obtain hmem | hmem | hmem := by simpa only [List.mem_append] using hmem
  · rw [← readLexemes_faults] at hmem
    obtain ⟨-, hpos, hstop⟩ := (hpart offset (List.subset_append_left _ _)).faults fault hmem
    omega
  · exact hmem
  · rw [← readLexemes_faults] at hmem
    obtain ⟨hstart, hpos, -⟩ := (hpart _ fun l hl => List.mem_append_right _ (List.mem_cons_of_mem _ hl)).faults fault hmem
    omega

/-- A fault in the text of one fragment is a fault of it. -/
theorem fault_of_part {lex : Nat → List Char → Lexed} (hlex : FragmentsBetween (some lex)) {offset : Nat} {front back : List Part}
    {part : Part} {closed : Bool} (hkind : part.kind = .fragment closed) {fault : LexFault}
    (hapt : ∀ p ∈ front ++ part :: back, p.raw ≠ [] ∧ p.Opened)
    (hmem : fault ∈ (readParts (some lex) offset (front ++ part :: back)).faults)
    (hlo : offset + byteWidth (front.flatMap (·.raw)) ≤ fault.span.start)
    (hhi : fault.span.stop ≤ offset + byteWidth (front.flatMap (·.raw)) + byteWidth part.raw) :
    fault ∈ (lex (offset + byteWidth (front.flatMap (·.raw)) + 2) part.inner).faults := by
  induction front generalizing offset with
  | nil =>
    rw [List.nil_append] at hmem hapt
    unfold readParts at hmem
    rw [hkind] at hmem
    obtain hmem | hmem := List.mem_append.1 hmem
    · exact hmem
    · have hrest := readParts_between hlex (offset + byteWidth part.raw)
        (fun p hp => (hapt p (List.mem_cons_of_mem _ hp)).2) (fun p hp => (hapt p (List.mem_cons_of_mem _ hp)).1)
      obtain ⟨hstart, hpos, -⟩ := hrest.faults fault hmem
      simp only [List.flatMap_nil, byteWidth_nil, Nat.add_zero] at hhi
      omega
  | cons p front ih =>
    rw [List.cons_append] at hmem hapt
    rw [List.flatMap_cons, byteWidth_append, ← Nat.add_assoc] at hlo hhi ⊢
    have hpos := length_le_byteWidth p.raw
    have hlength := List.length_pos_iff.2 (hapt p List.mem_cons_self).1
    have hrest := @ih (offset + byteWidth p.raw) fun q hq => hapt q (List.mem_cons_of_mem _ hq)
    unfold readParts at hmem
    cases hp : p.kind with
    | fragment closed' =>
      rw [hp] at hmem
      obtain hmem | hmem := List.mem_append.1 hmem
      · have hwidth := byteWidth_inner_add_le ((hapt p List.mem_cons_self).2 closed' hp)
        obtain ⟨-, hpos', hstop⟩ := (hlex lex rfl (offset + 2) p.inner).faults fault hmem
        omega
      · exact hrest hmem hlo hhi
    | badEscape value =>
      rw [hp] at hmem
      obtain rfl | hmem := List.mem_cons.1 hmem
      · dsimp only at hlo
        omega
      · exact hrest hmem hlo hhi
    | _ =>
      rw [hp] at hmem
      exact hrest hmem hlo hhi

/-! ## Strings -/

/-- A string among tokens is read from a lexeme of a text, and its pieces from the parts of the
content of that. -/
structure ReadString (levels offset : Nat) (text : List Char) (front back : List Lexeme) (closed multiline : Bool)
    (lead content trail : List Char) (pieces : List Piece) (span : Span) : Prop where
  lexemes_eq : lexemes text = front ++ ⟨.string closed, '"' :: (lead ++ content ++ trail) ++ if closed then ['"'] else []⟩ :: back
  start : span.start = offset + byteWidth (front.flatMap (·.raw))
  margins : Margins multiline lead content trail
  scan : literalLength [.text] (lead ++ content ++ trail ++ if closed then ['"'] else []) =
    if closed then some ((lead ++ content ++ trail).length + 1) else none
  pieces_eq : pieces =
    (readParts (fragmentsAt none levels) (span.start + 1 + byteWidth lead) (parts multiline content)).pieces
  stop : span.stop = span.start +
    byteWidth ('"' :: (lead ++ content ++ trail) ++ if closed then ['"'] else [])
  faults_eq : (readLexeme (fragmentsAt none levels) span.start
      ⟨.string closed, '"' :: (lead ++ content ++ trail) ++ if closed then ['"'] else []⟩).faults =
    (if closed then [] else [⟨.unterminatedString, span⟩]) ++
      (readParts (fragmentsAt none levels) (span.start + 1 + byteWidth lead) (parts multiline content)).faults

theorem exists_readString {levels offset : Nat} {text : List Char} {token : Token} {multiline : Bool} {pieces : List Piece}
    (h : token ∈ (lexAt none levels offset text).tokens) (hliteral : token.kind = .str multiline pieces) :
    ∃ front back closed lead content trail,
      ReadString levels offset text front back closed multiline lead content trail pieces token.span := by
  rw [lexAt_none] at h
  obtain ⟨front, back, lexeme, hread⟩ := exists_readFrom h (by rw [hliteral]; rfl)
  obtain ⟨c, rest, hfirst⟩ := mem_cutLexemes (show lexeme ∈ lexemes text by
    rw [hread.lexemes_eq]
    exact List.mem_append_right _ List.mem_cons_self)
  have hkind : ∃ closed, lexeme.kind = .string closed := by
    have htoken := hread.read
    unfold readLexeme at htoken
    cases hkind : lexeme.kind with
    | string closed => exact ⟨closed, rfl⟩
    | blank => rw [hkind] at htoken; cases htoken
    | comment => rw [hkind] at htoken; cases htoken
    | stray => rw [hkind] at htoken; cases htoken
    | _ =>
      rw [hkind] at htoken
      rw [← (List.cons.inj htoken).1] at hliteral
      cases hliteral
  obtain ⟨closed, hkind⟩ := hkind
  obtain ⟨hraw, hscan⟩ := raw_of_string (hfirst ▸ hkind)
  rw [← hfirst] at hraw hscan
  obtain ⟨multiline', lead, content, trail, hbody, hmargins, heq⟩ := readString_eq closed lexeme.raw
  rw [hbody] at hraw hscan
  have hlexeme : lexeme = ⟨.string closed, '"' :: (lead ++ content ++ trail) ++ if closed then ['"'] else []⟩ := by
    rw [← hkind, ← hraw]
  have hwhole : readLexeme (fragmentsAt none levels) (offset + byteWidth (front.flatMap (·.raw))) lexeme =
      readString (fragmentsAt none levels) closed lexeme.raw ⟨offset + byteWidth (front.flatMap (·.raw)),
        offset + byteWidth (front.flatMap (·.raw)) + byteWidth lexeme.raw⟩ := by
    unfold readLexeme
    rw [hkind]
  have htoken := hread.read
  rw [hwhole, heq] at htoken
  have htoken := (List.cons.inj htoken).1
  have hspan : token.span = ⟨offset + byteWidth (front.flatMap (·.raw)),
      offset + byteWidth (front.flatMap (·.raw)) + byteWidth lexeme.raw⟩ := by rw [← htoken]
  rw [← htoken] at hliteral
  obtain ⟨rfl, rfl⟩ := Kind.str.inj hliteral
  refine ⟨front, back, closed, lead, content, trail, ?_, hread.start, hmargins, hscan, ?_, ?_, ?_⟩
  · rw [hread.lexemes_eq, ← hlexeme]
  · rw [hread.start]
  · rw [hread.stop, hread.start, hraw]
  · rw [← hlexeme, hread.start, hwhole, heq, hspan]

/-- What is read from the content of a string are faults of the text. -/
theorem ReadString.faults {levels offset : Nat} {text lead content trail : List Char} {front back : List Lexeme}
    {closed multiline : Bool} {pieces : List Piece} {span : Span}
    (h : ReadString levels offset text front back closed multiline lead content trail pieces span) :
    ∀ fault ∈ (readParts (fragmentsAt none levels) (span.start + 1 + byteWidth lead) (parts multiline content)).faults,
      fault ∈ (lexAt none levels offset text).faults := by
  intro fault hmem
  rw [lexAt_none, h.lexemes_eq, List.append_cons]
  refine faults_of_lexemes fault ?_
  rw [readLexemes, Lexed.faults_append, ← h.start, h.faults_eq]
  exact List.mem_append_left _ (List.mem_append_right _ hmem)

/-! ## Where streams stand -/

/-- The text of a string before its fragment `part`. -/
def beforeFragment (front : List Lexeme) (lead : List Char) (ps : List Part) : List Char :=
  front.flatMap (·.raw) ++ '"' :: lead ++ ps.flatMap (·.raw)

/-- The text of a string after its fragment. -/
def afterFragment (closed : Bool) (qs : List Part) (trail : List Char) (back : List Lexeme) : List Char :=
  qs.flatMap (·.raw) ++ trail ++ (if closed then ['"'] else []) ++ back.flatMap (·.raw)

section

variable {levels offset : Nat} {text lead content trail : List Char} {front back : List Lexeme} {closed multiline : Bool}
  {pieces : List Piece} {span : Span} {ps qs : List Part} {part : Part}

/-- A text is what comes before a fragment, the fragment, and what comes after it. -/
theorem ReadString.text_eq (h : ReadString levels offset text front back closed multiline lead content trail pieces span)
    (hparts : parts multiline content = ps ++ part :: qs) :
    text = beforeFragment front lead ps ++ part.raw ++ afterFragment closed qs trail back := by
  have hcontent := flatMap_raw_parts multiline content
  rw [hparts, List.flatMap_append, List.flatMap_cons] at hcontent
  have htext := flatMap_raw_lexemes text
  rw [h.lexemes_eq, List.flatMap_append, List.flatMap_cons, ← hcontent] at htext
  rw [← htext]
  simp only [beforeFragment, afterFragment, List.append_assoc, List.cons_append]

theorem ReadString.start_eq (h : ReadString levels offset text front back closed multiline lead content trail pieces span)
    (ps : List Part) : span.start + 1 + byteWidth lead + byteWidth (ps.flatMap (·.raw)) =
      offset + byteWidth (beforeFragment front lead ps) := by
  have hquote : '"'.utf8Size = 1 := by decide
  rw [h.start, beforeFragment, byteWidth_append, byteWidth_append, byteWidth_cons, hquote]
  omega

end

/-- A fragment in a string is lexed from what is between its braces. -/
theorem LexedFrom.fragment {source : String} {levels : Nat} {before text after : List Char} {tokens inner : List Token}
    {token : Token} {multiline : Bool} {pieces : List Piece} {span : Span}
    (h : LexedFrom source levels before text after tokens) (hmem : token ∈ tokens)
    (hliteral : token.kind = .str multiline pieces) (hpiece : .fragment inner span ∈ pieces) :
    ∃ front back closed lead content trail ps part qs closed' levels', levels = levels' + 1 ∧
      ReadString levels (byteWidth before) text front back closed multiline lead content trail pieces token.span ∧
      parts multiline content = ps ++ part :: qs ∧ part.kind = .fragment closed' ∧
      span = ⟨byteWidth (before ++ beforeFragment front lead ps),
        byteWidth (before ++ beforeFragment front lead ps) + byteWidth part.raw⟩ ∧
      LexedFrom source levels' (before ++ beforeFragment front lead ps ++ ['$', '{']) part.inner
        ((if closed' then ['}'] else []) ++ afterFragment closed qs trail back ++ after) inner := by
  have htoken := hmem
  rw [h.tokens_eq] at htoken
  obtain ⟨front, back, closed, lead, content, trail, hread⟩ := exists_readString htoken hliteral
  have hfragment := hpiece
  rw [hread.pieces_eq] at hfragment
  obtain ⟨ps, part, qs, closed', lex, hparts, hkind, hlex, hspan, hinner, hfaults⟩ := exists_part_of_fragment hfragment
  obtain _ | levels := levels
  · cases hlex
  obtain rfl := Option.some.inj hlex
  have hstart := hread.start_eq ps
  rw [← byteWidth_append] at hstart
  have hopen : span.start + 2 = byteWidth (before ++ beforeFragment front lead ps ++ ['$', '{']) := by
    rw [hspan, byteWidth_append _ ['$', '{'], ← hstart]
    rfl
  have hraw := (apt_parts multiline content part (hparts ▸ List.mem_append_right _ List.mem_cons_self)).fragment closed' hkind
  have hstart' : token.span.start = byteWidth before + byteWidth (front.flatMap (·.raw)) := hread.start
  have hwhole := congrArg byteWidth (hread.text_eq hparts)
  have hcontent := congrArg byteWidth (flatMap_raw_parts multiline content)
  have hquote : '"'.utf8Size = 1 := by decide
  rw [hparts] at hcontent
  simp only [List.flatMap_append, List.flatMap_cons, byteWidth_append] at hwhole hcontent
  have hwidth : byteWidth part.raw = 2 + byteWidth part.inner + byteWidth (if closed' then ['}'] else []) := by
    have hopening : byteWidth ('$' :: '{' :: part.inner) = 2 + byteWidth part.inner := by
      rw [byteWidth_cons, byteWidth_cons, ← Nat.add_assoc]
      rfl
    rw [hraw, byteWidth_append, hopening]
  refine ⟨front, back, closed, lead, content, trail, ps, part, qs, closed', levels, rfl, hread, hparts, hkind, ?_, ?_, ?_,
    Nat.le_trans (Nat.le_succ _) h.levels_le, ?_, ?_⟩
  · rw [hspan, hstart]
  · rw [h.source_eq, hread.text_eq hparts, hraw]
    simp only [List.append_assoc, List.cons_append, List.nil_append]
  · rw [hinner, hopen]
  · intro fault hfault
    rw [← hopen] at hfault
    exact h.faults fault (hread.faults fault (hfaults fault hfault))
  · intro fault hfault hlo hhi
    rw [← hopen] at hlo hhi ⊢
    rw [hspan] at hlo hhi ⊢
    dsimp only at hlo hhi ⊢
    rw [byteWidth_append] at hstart
    have houter := h.within fault hfault (by omega) (by omega)
    have hlexeme := fault_of_lexeme hread.lexemes_eq houter (by omega) (by
      simp only [List.cons_append, byteWidth_cons, byteWidth_append, hquote]
      omega)
    rw [← hread.start, hread.faults_eq] at hlexeme
    obtain hopen | hbody := List.mem_append.1 hlexeme
    · -- A literal that is not closed begins before what is in it.
      cases closed with
      | true => exact absurd hopen List.not_mem_nil
      | false =>
        rw [List.mem_singleton.1 hopen] at hlo
        dsimp only at hlo
        omega
    · rw [hparts] at hbody
      exact fault_of_part (fragmentsAt_between none (levels + 1)) hkind (fun p hp =>
        ⟨(apt_parts multiline content p (hparts ▸ hp)).wide, opened_cutParts multiline _ _ content p (hparts ▸ hp)⟩)
        hbody (by omega) (by omega)

/-- A document is lexed from all that is behind its `#!` line. -/
theorem exists_lexedFrom_whole (source : String) :
    ∃ before text after, LexedFrom source fragmentLimit before text after (lex source).tokens := by
  refine ⟨shebangLine source.toList, source.toList.drop (shebangLine source.toList).length, [], ?_, ?_,
    Nat.le_refl _, fun _ hmem => hmem, fun _ hmem _ _ => hmem⟩
  · rw [List.append_nil]
    exact (List.prefix_iff_eq_append.1 (shebangLine_le _)).symm
  · exact (lexWithin_capped faultLimit source).1

theorem Stream.stands {source : String} {tokens : List Token} (h : Stream source tokens) :
    ∃ levels before text after, LexedFrom source levels before text after tokens := by
  induction h with
  | whole => exact ⟨fragmentLimit, exists_lexedFrom_whole source⟩
  | fragment outer hmem hliteral hpiece ih =>
    obtain ⟨levels, before, text, after, hstands⟩ := ih
    obtain ⟨front, _, _, lead, _, _, ps, part, _, _, levels', -, -, -, -, -, hinner⟩ := hstands.fragment hmem hliteral hpiece
    exact ⟨levels', _, part.inner, _, hinner⟩

end JuiceSyntax
