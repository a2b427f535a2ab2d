/-
  Closed strings. In a literal that the scan of it closes, every part of its content begins where
  the scan is among the characters of the literal itself (`scan_parts`). So a fragment in it is
  closed by the very brace at which the scan leaves it, and no string is open in it.

  `fragments_of_closed`: so it is with every closed string of a document; the three ways to read
  it, as a literal, as parts and as the tokens of a fragment, agree on where its fragments end.
-/
import JuiceSyntax.Proofs.Token.Fragments
import JuiceSyntax.Proofs.Token.Streams

namespace JuiceSyntax

/-! ## Characters that mean nothing in a literal -/

/-- A character that is no quote, backslash or dollar sign. -/
def isLiteral (c : Char) : Bool := c != '"' && c != '\\' && c != '$'

theorem scan_literal {cs : List Char} (h : cs.all isLiteral = true) (modes : List QuoteMode) (more : List Char) :
    Scan (.text :: modes) (cs ++ more) (.text :: modes) more := by
  induction cs with
  | nil => exact .here
  | cons c cs ih =>
    rw [List.all_cons, Bool.and_eq_true] at h
    obtain ⟨⟨hquote, hescape⟩, hdollar⟩ := by simpa [isLiteral] using h.1
    exact .step (scanStep?_text modes hquote hescape fun heq => absurd heq hdollar) (ih h.2)

theorem isLiteral_of_hex {c : Char} (h : (Radix.hex.digit? c).isSome = true) : isLiteral c = true := by
  have hne {d : Char} (hd : (Radix.hex.digit? d).isSome = false) : c ≠ d := by
    rintro rfl
    exact absurd (h.symm.trans hd) (by decide)
  simp [isLiteral, hne (d := '"') (by decide), hne (d := '\\') (by decide), hne (d := '$') (by decide)]

theorem isLiteral_of_hexDigits {digits : List Char} {code : Nat} (h : hexDigits? digits = some code) :
    digits.all isLiteral = true := by
  unfold hexDigits? at h
  split at h
  · rename_i hall
    exact List.all_eq_true.2 fun c hc => isLiteral_of_hex (List.all_eq_true.1 hall c hc)
  · cases h

/-- A Unicode escape has no quote, backslash or dollar sign after its `u`. -/
theorem unicodeEscape?_literal {rest : List Char} {value : Char} {n : Nat} (h : unicodeEscape? rest = some (value, n)) :
    (rest.take n).all isLiteral = true := by
  unfold unicodeEscape? at h
  split at h
  · rename_i rest
    dsimp only at h
    split at h
    · cases h
    rename_i hdigits
    obtain ⟨code, hcode, h⟩ := Option.bind_eq_some_iff.1 h
    obtain ⟨c, -, h⟩ := Option.bind_eq_some_iff.1 h
    obtain ⟨-, rfl⟩ := Prod.mk.inj (Option.some.inj h)
    have hall := isLiteral_of_hexDigits hcode
    generalize hline : rest.takeWhile (· != '\x7d') = digits at hdigits hall
    simp only [Bool.or_eq_true, not_or, List.isEmpty_iff] at hdigits
    obtain ⟨d, tail, htail⟩ := List.exists_cons_of_ne_nil hdigits.1.1
    obtain rfl : rest = digits ++ d :: tail := by
      rw [← htail, List.prefix_iff_eq_append.1 (hline ▸ List.takeWhile_prefix _)]
    have hbrace : d = '\x7d' := by simpa using (takeWhile_eq_iff.1 hline).2 d rfl
    rw [List.take_succ_cons, List.take_length_add_append, List.all_cons, List.all_append, hall, hbrace]
    simp
    decide
  · split at h
    · cases h
    obtain ⟨code, hcode, h⟩ := Option.bind_eq_some_iff.1 h
    obtain ⟨c, -, h⟩ := Option.bind_eq_some_iff.1 h
    obtain ⟨-, rfl⟩ := Prod.mk.inj (Option.some.inj h)
    exact isLiteral_of_hexDigits hcode

/-- After its first character an escape has no quote, backslash or dollar sign. -/
theorem escape?_literal {rest : List Char} {value : Char} {n : Nat} (h : escape? rest = some (value, n)) :
    ∃ c cs m, rest = c :: cs ∧ n = m + 1 ∧ (cs.take m).all isLiteral = true := by
  unfold escape? at h
  split at h
  case h_11 cs =>
    obtain ⟨⟨c, m⟩, hescape, heq⟩ := Option.map_eq_some_iff.1 h
    obtain ⟨-, rfl⟩ := Prod.mk.inj heq
    exact ⟨'u', cs, m, rfl, rfl, unicodeEscape?_literal hescape⟩
  case h_12 => cases h
  all_goals
    obtain ⟨-, rfl⟩ := Prod.mk.inj (Option.some.inj h)
    exact ⟨_, _, 0, rfl, rfl, rfl⟩

theorem indentLength?_literal {line : List Char} {n : Nat} (h : indentLength? line = some n) :
    (line.take n).all isLiteral = true :=
  List.all_eq_true.2 fun c hc => by
    obtain rfl | rfl | rfl := (mem_marker h).2 c hc
    all_goals decide

/-! ## Parts of a closed literal -/

/-- What stands behind the content of a closed literal ends with the quote of that; no brace is
in it. -/
structure Tail (tail : List Char) : Prop where
  ne_nil : tail ≠ []
  opening : '\x7b' ∉ tail
  closing : '\x7d' ∉ tail

theorem tail_of_margin {trail : List Char} (h : trail.all isMargin = true) : Tail (trail ++ ['"']) := by
  have hnot {d : Char} (hd : isMargin d = false) (hquote : d ≠ '"') : d ∉ trail ++ ['"'] := by
    intro hmem
    obtain hmem | hmem := List.mem_append.1 hmem
    · exact absurd ((List.all_eq_true.1 h d hmem).symm.trans hd) (by decide)
    · exact hquote (List.mem_singleton.1 hmem)
  exact ⟨by simp, hnot (by decide) (by decide), hnot (by decide) (by decide)⟩

theorem drop_length_take (n : Nat) (cs : List Char) : cs.drop (cs.take n).length = cs.drop n := by
  rw [List.length_take]
  obtain h | h := Nat.le_total n cs.length
  · rw [Nat.min_eq_left h]
  · rw [Nat.min_eq_right h, List.drop_length, List.drop_eq_nil_of_le h]

section

variable {multiline : Bool} {content tail : List Char}

/-- In a literal that goes on to its end, a character that begins no escape and no fragment means
nothing. -/
theorem scanStep?_content {c : Char} {cs : List Char} (htail : Tail tail)
    (h : literalLength [.text] (c :: cs ++ tail) = some (c :: cs ++ tail).length) (hescape : c ≠ '\\')
    (hfragment : ∀ rest, c = '$' → cs ≠ '\x7b' :: rest) : scanStep? [.text] (c :: cs ++ tail) = some ([.text], cs ++ tail) := by
  refine scanStep?_text [] ?_ hescape fun hdollar hopen => ?_
  · rintro rfl
    simp [literalLength, htail.ne_nil] at h
  · cases cs with
    | nil => exact htail.opening (List.mem_of_mem_head? (by simpa using hopen))
    | cons d cs =>
      obtain rfl : d = '\x7b' := by simpa using hopen
      exact hfragment cs hdollar rfl

/-- The scan passes the characters before an escape, a fragment or a marked line. -/
theorem scan_textLength (htail : Tail tail) (h : literalLength [.text] (content ++ tail) = some (content ++ tail).length) :
    Scan [.text] (content ++ tail) [.text] (content.drop (textLength multiline content) ++ tail) := by
  fun_induction textLength multiline content
  case case1 | case2 | case3 => exact .here
  case case4 c cs hescape hfragment hmark =>
    exact .one (scanStep?_content htail h hescape hfragment)
  case case5 c cs hescape hfragment hmark ih =>
    have hfirst := scanStep?_content htail h hescape hfragment
    exact .step hfirst (ih ((Scan.one hfirst).literalLength_eq h))

/-- The part that a content begins with is passed by the scan, up to the next one, and is no
fragment that is not closed. -/
theorem scan_firstPart (htail : Tail tail) (h : literalLength [.text] (content ++ tail) = some (content ++ tail).length)
    (atLineStart : Bool) :
    (firstPart multiline atLineStart content).kind ≠ .fragment false ∧
      (content.drop (firstPart multiline atLineStart content).raw.length ≠ [] →
        Scan [.text] (content ++ tail) [.text] (content.drop (firstPart multiline atLineStart content).raw.length ++ tail)) := by
  have hliteral {n : Nat} (hall : (content.take n).all isLiteral = true) :
      Scan [.text] (content ++ tail) [.text] (content.drop n ++ tail) := by
    have hscan := scan_literal hall [] (content.drop n ++ tail)
    rwa [← List.append_assoc, List.take_append_drop] at hscan
  unfold firstPart
  split
  · rename_i n hn
    have hindent : indentLength? content = some n := by
      split at hn
      · exact hn
      · cases hn
    dsimp only
    rw [drop_length_take]
    exact ⟨by simp, fun _ => hliteral (indentLength?_literal hindent)⟩
  split
  · split
    · rename_i value n hescape
      obtain ⟨c, cs, m, rfl, rfl, hall⟩ := escape?_literal hescape
      dsimp only
      rw [drop_length_take]
      have hscan := scan_literal hall [] (cs.drop m ++ tail)
      rw [← List.append_assoc, List.take_append_drop] at hscan
      exact ⟨by simp, fun _ => .step (by simp [scanStep?]) hscan⟩
    · dsimp only
      exact ⟨by simp, fun hne => absurd List.drop_length hne⟩
    · rename_i c cs _
      exact ⟨by simp, fun _ => .one (by simp [scanStep?])⟩
  · rename_i rest _
    have hopen : Scan [.text] ('$' :: '\x7b' :: rest ++ tail) [.code 0, .text] (rest ++ tail) := .one (by simp [scanStep?])
    cases hlength : literalLength [.code 0] rest with
    | some n =>
      obtain ⟨inner, rest, rfl, rfl, hholds⟩ := QuoteMode.exists_holds hlength
      dsimp only
      rw [drop_length_take]
      have hrest : ('$' :: '\x7b' :: (inner ++ QuoteMode.closer (.code 0) :: rest)).drop (inner.length + 1 + 2) = rest := by
        show (inner ++ '\x7d' :: rest).drop (inner.length + 1) = rest
        rw [List.drop_length_add_append]
        rfl
      have hinner := hholds.scan [.text] (rest ++ tail)
      rw [← List.cons_append, ← List.append_assoc] at hinner
      exact ⟨by simp, fun _ => by rw [hrest]; exact hopen.trans hinner⟩
    | none =>
      -- The scan leaves the fragment, at a brace that can only stand in the content.
      have hrest := hopen.literalLength_eq h
      have hframe := literalLength_frame [.code 0] [.text] (rest ++ tail)
      rw [List.singleton_append, hrest] at hframe
      obtain ⟨n, hn, -⟩ := Option.bind_eq_some_iff.1 hframe.symm
      obtain ⟨inner, rfl, hbrace⟩ := exists_inner_of_literalLength hn
      obtain ⟨front, -, htail'⟩ | ⟨back, rfl, hback⟩ := List.append_eq_append_iff.1 hbrace
      · exact absurd (htail' ▸ List.mem_append_right _ List.mem_cons_self) htail.closing
      · cases back with
        | nil => exact absurd (List.mem_of_mem_head? (by rw [← List.nil_append tail, ← hback]; rfl)) htail.closing
        | cons d back =>
          rw [literalLength_left hn (by simp)] at hlength
          cases hlength
  · dsimp only
    rw [drop_length_take]
    exact ⟨by simp, fun _ => scan_textLength htail h⟩

/-- The text in a closed fragment is closed by the brace behind it. -/
theorem holds_inner {atLineStart : Bool} (h : (firstPart multiline atLineStart content).kind = .fragment true) :
    QuoteMode.Holds (.code 0) (firstPart multiline atLineStart content).inner := by
  obtain ⟨rest, -, ⟨n, hlength, heq⟩ | ⟨-, heq⟩⟩ := firstPart_fragment_cases h
  · obtain ⟨inner, rest, rfl, rfl, hholds⟩ := QuoteMode.exists_holds hlength
    have hinner : (firstPart multiline atLineStart content).inner = inner := by
      rw [heq]
      simp [Part.inner, List.take_length_add_append]
    rwa [hinner]
  · rw [heq] at h
    cases h

/-- Every part of the content of a closed literal begins where the scan is among the characters of
the literal, and a fragment among them is closed where the scan leaves it. -/
theorem scan_parts (htail : Tail tail) (h : literalLength [.text] (content ++ tail) = some (content ++ tail).length)
    {front back : List Part} {part : Part} (hparts : parts multiline content = front ++ part :: back) :
    part.kind ≠ .fragment false ∧ Scan [.text] (content ++ tail) [.text] ((part :: back).flatMap (·.raw) ++ tail) ∧
      (part.kind = .fragment true → QuoteMode.Holds (.code 0) part.inner) := by
  have hcut (fuel : Nat) (atLineStart : Bool) (hfuel : content.length ≤ fuel)
      (hparts : cutParts multiline fuel atLineStart content = front ++ part :: back) :
      part.kind ≠ .fragment false ∧ Scan [.text] (content ++ tail) [.text] ((part :: back).flatMap (·.raw) ++ tail) ∧
        (part.kind = .fragment true → QuoteMode.Holds (.code 0) part.inner) := by
    clear * - htail h hfuel hparts
    induction fuel generalizing atLineStart content front with
    | zero => cases front <;> cases hparts
    | succ fuel ih =>
      have hwhole := flatMap_raw_cutParts multiline (fuel + 1) atLineStart content hfuel
      cases content with
      | nil => cases front <;> cases hparts
      | cons c cs =>
        obtain ⟨hclosed, hscan⟩ := @scan_firstPart multiline _ _ htail h atLineStart
        have hpos := (raw_firstPart multiline atLineStart c cs).2
        rw [List.length_cons] at hfuel
        cases front with
        | nil =>
          rw [List.nil_append] at hparts
          rw [← hparts, hwhole]
          obtain ⟨rfl, -⟩ := List.cons.inj hparts
          exact ⟨hclosed, .here, holds_inner⟩
        | cons first front =>
          obtain ⟨-, hrest⟩ := List.cons.inj hparts
          have hne : (c :: cs).drop (firstPart multiline atLineStart (c :: cs)).raw.length ≠ [] := by
            intro hnil
            rw [hnil] at hrest
            cases fuel <;> cases front <;> cases hrest
          have hpassed := hscan hne
          have hle : ((c :: cs).drop (firstPart multiline atLineStart (c :: cs)).raw.length).length ≤ fuel := by
            rw [List.length_drop, List.length_cons]
            omega
          obtain ⟨hpart, hpart', hholds⟩ := ih (hpassed.literalLength_eq h) _ hle hrest
          exact ⟨hpart, hpassed.trans hpart', hholds⟩
  exact hcut _ _ (Nat.le_refl _) hparts

end

/-- The scan of a closed literal passes what stands before its content. -/
theorem scan_lead {lead content trail : List Char} (hlead : lead.all isMargin = true)
    (h : QuoteMode.text.Holds (lead ++ content ++ trail)) :
    Scan [.text] (lead ++ content ++ trail ++ ['"']) [.text] (content ++ (trail ++ ['"'])) ∧
      literalLength [.text] (content ++ (trail ++ ['"'])) = some (content ++ (trail ++ ['"'])).length := by
  have hliteral : lead.all isLiteral = true := List.all_eq_true.2 fun c hc => by
    have hmargin := List.all_eq_true.1 hlead c hc
    have hne {d : Char} (hd : isMargin d = false) : c ≠ d := by
      rintro rfl
      exact absurd (hmargin.symm.trans hd) (by decide)
    simp [isLiteral, hne (d := '"') (by decide), hne (d := '\\') (by decide), hne (d := '$') (by decide)]
  have hscan := scan_literal hliteral [] (content ++ (trail ++ ['"']))
  simp only [← List.append_assoc] at hscan ⊢
  refine ⟨hscan, hscan.literalLength_eq ?_⟩
  rw [List.length_append]
  exact h

/-! ## No open string in a closed one -/

/-- None of the faults is an open string. -/
def NoneOpen (faults : List LexFault) : Prop := ∀ fault ∈ faults, fault.cause ≠ .unterminatedString

section

variable {fragment? : Option (Nat → List Char → Lexed)}

/-- In a fragment that is closed no string is open. -/
def ClosedFragments (fragment? : Option (Nat → List Char → Lexed)) : Prop :=
  ∀ lex, fragment? = some lex → ∀ offset text, QuoteMode.Holds (.code 0) text → NoneOpen (lex offset text).faults

theorem readParts_noneOpen (h : ClosedFragments fragment?) (offset : Nat) {ps : List Part}
    (hps : ∀ part ∈ ps, part.kind ≠ .fragment false ∧ (part.kind = .fragment true → QuoteMode.Holds (.code 0) part.inner)) :
    NoneOpen (readParts fragment? offset ps).faults := by
  induction ps generalizing offset with
  | nil => simp [readParts, NoneOpen]
  | cons part rest ih =>
    obtain ⟨⟨hclosed, hholds⟩, hrest⟩ := List.forall_mem_cons.1 hps
    have hothers := ih (offset + byteWidth part.raw) hrest
    unfold readParts
    cases hkind : part.kind with
    | text | indent | escape value => exact hothers
    | badEscape value => exact List.forall_mem_cons.2 ⟨by simp, hothers⟩
    | fragment closed =>
      cases hlex : fragment? with
      | none =>
        rw [hlex] at hothers
        exact List.forall_mem_cons.2 ⟨by simp, hothers⟩
      | some lex =>
        rw [hlex] at hothers
        cases closed with
        | false => exact absurd hkind hclosed
        | true => exact List.forall_mem_append.2 ⟨h lex hlex _ _ (hholds hkind), hothers⟩

/-- What is in a closed literal reports no open string. -/
theorem content_noneOpen (h : ClosedFragments fragment?) (offset : Nat) (multiline : Bool) {lead content trail : List Char}
    (hlead : lead.all isMargin = true) (htrail : trail.all isMargin = true)
    (hholds : QuoteMode.text.Holds (lead ++ content ++ trail)) :
    NoneOpen (readParts fragment? offset (parts multiline content)).faults := by
  refine readParts_noneOpen h offset fun part hmem => ?_
  obtain ⟨front, back, hparts⟩ := List.append_of_mem hmem
  obtain ⟨hclosed, -, hinner⟩ := scan_parts (tail_of_margin htrail) (scan_lead hlead hholds).2 hparts
  exact ⟨hclosed, hinner⟩

theorem noneOpen_toList {cause? : Option LexCause} {span : Span} (h : ∀ cause, cause? = some cause → cause ≠ .unterminatedString) :
    NoneOpen (cause?.map fun cause => (⟨cause, span⟩ : LexFault)).toList := by
  intro fault hmem
  obtain ⟨cause, hcause, rfl⟩ := Option.map_eq_some_iff.1 (Option.mem_toList.1 hmem)
  exact h cause hcause

theorem readLexeme_noneOpen (h : ClosedFragments fragment?) (offset : Nat) {c : Char} {rest : List Char}
    (hclosed : (firstLexeme c rest).kind ≠ .string false) :
    NoneOpen (readLexeme fragment? offset (firstLexeme c rest)).faults := by
  unfold readLexeme
  cases hkind : (firstLexeme c rest).kind with
  | string closed =>
    obtain ⟨multiline, lead, content, trail, hbody, hmargins, heq⟩ := readString_eq closed (firstLexeme c rest).raw
    have hscan := (raw_of_string hkind).2
    rw [hbody] at hscan
    cases closed with
    | false => exact absurd hkind hclosed
    | true =>
      dsimp only
      rw [heq]
      exact content_noneOpen h _ multiline hmargins.lead_blank hmargins.trail_blank hscan
  | integer radix =>
    refine noneOpen_toList fun cause hcause => ?_
    unfold readInteger at hcause
    dsimp only at hcause
    split at hcause
    · rw [← Option.some.inj hcause]
      nofun
    split at hcause
    · cases hcause
    · rw [← Option.some.inj hcause]
      nofun
  | decimal =>
    refine noneOpen_toList fun cause hcause => ?_
    unfold readDecimal at hcause
    dsimp only at hcause
    split at hcause
    · rw [← Option.some.inj hcause]
      simp
    · cases hcause
  | stray => exact List.forall_mem_map.2 nofun
  | _ => exact nofun

end

theorem closedFragments (levels : Nat) : ClosedFragments (fragmentsAt none levels) := by
  induction levels with
  | zero => exact nofun
  | succ levels ih =>
    intro lex hlex offset text hholds
    obtain rfl := Option.some.inj hlex
    rw [lexAt_none, readLexemes_faults]
    intro fault hmem
    obtain ⟨s, hs, hfault⟩ := List.mem_flatMap.1 hmem
    have hlexeme := lexeme_mem_of_stretch hs
    obtain ⟨c, rest, hfirst⟩ := mem_cutLexemes hlexeme
    have hclosed := (@closes_of_scan none 0 _ _ _ hholds).1 _ hlexeme
    unfold Stretch.lexed at hfault
    rw [hfirst] at hclosed hfault
    exact readLexeme_noneOpen ih _ hclosed fault hfault

/-! ## Closed strings of a document -/

section

variable {source : String} {levels : Nat} {before text after lead content trail quoted : List Char}
  {stream : List Token} {front back : List Lexeme} {closed multiline : Bool} {pieces : List Piece} {span : Span}

/-- A string whose characters are those of a closed literal is closed. -/
theorem ReadString.closed_eq (h : ReadString levels (byteWidth before) text front back closed multiline lead content trail pieces span)
    (hstands : LexedFrom source levels before text after stream) (hslice : slice? source.toList span = some ('"' :: quoted))
    (hquoted : literalLength [.text] quoted = some quoted.length) :
    closed = true ∧ quoted = lead ++ content ++ trail ++ ['"'] := by
  have htext := flatMap_raw_lexemes text
  rw [h.lexemes_eq, List.flatMap_append, List.flatMap_cons] at htext
  have hsource : source.toList = (before ++ front.flatMap (·.raw)) ++
      ('"' :: (lead ++ content ++ trail) ++ if closed then ['"'] else []) ++ (back.flatMap (·.raw) ++ after) := by
    rw [hstands.source_eq, ← htext]
    simp only [List.append_assoc]
  have hspan : span = ⟨byteWidth (before ++ front.flatMap (·.raw)), byteWidth (before ++ front.flatMap (·.raw)) +
      byteWidth ('"' :: (lead ++ content ++ trail) ++ if closed then ['"'] else [])⟩ := by
    rw [byteWidth_append, ← h.start, ← h.stop]
  rw [hsource, hspan, slice?_middle] at hslice
  obtain ⟨-, hquoted'⟩ := List.cons.inj (Option.some.inj hslice)
  have hscan := h.scan
  cases closed with
  | true => exact ⟨rfl, hquoted'.symm⟩
  | false =>
    have hopen : literalLength [.text] quoted = none := by
      rw [← hquoted']
      exact hscan
    rw [hopen] at hquoted
    cases hquoted

end

/-- The fragments of a closed string, at whatever depth it stands: each is written as `${`, a text
and the brace at which the scan of the literal leaves it, which is also the first brace after that
text that a count of braces finds; its tokens are those of the text, with balanced braces, and
end at that brace. No open string is reported from inside the literal. -/
theorem fragments_of_closed {source : String} {stream : List Token} (hstream : Stream source stream) {token : Token}
    (hmem : token ∈ stream) {multiline : Bool} {pieces : List Piece} (hliteral : token.kind = .str multiline pieces)
    {quoted : List Char} (hslice : slice? source.toList token.span = some ('"' :: quoted))
    (hclosed : literalLength [.text] quoted = some quoted.length) :
    (∀ inner span, .fragment inner span ∈ pieces → ∃ before text after tokens levels,
      quoted = before ++ '$' :: '\x7b' :: (text ++ '\x7d' :: after) ∧
        span = ⟨token.span.start + 1 + byteWidth before, token.span.start + 1 + byteWidth before + byteWidth text + 3⟩ ∧
        slice? source.toList span = some ('$' :: '\x7b' :: (text ++ ['\x7d'])) ∧
        Scan [.text] quoted [.text] ('$' :: '\x7b' :: (text ++ '\x7d' :: after)) ∧
        literalLength [.code 0] (text ++ '\x7d' :: after) = some (text.length + 1) ∧
        (∀ more, closingBrace? 0 (text ++ '\x7d' :: more) = some text.length) ∧
        inner = (lexAt none levels (span.start + 2) text).tokens ∧
        inner = tokens ++ [⟨.done, .point (span.stop - 1)⟩] ∧ Balanced tokens) ∧
      ∀ limit, ∀ fault ∈ (lexWithin limit source).faults, token.span.holds fault.span = true →
        fault.cause ≠ .unterminatedString := by
  obtain ⟨levels, before, text, after, hstands⟩ := hstream.stands
  constructor
  · intro inner span hpiece
    obtain ⟨front, back, closed, lead, content, trail, ps, part, qs, closed', levels', -, hread, hparts, hkind, hspan, hinner⟩ :=
      hstands.fragment hmem hliteral hpiece
    obtain ⟨rfl, rfl⟩ := hread.closed_eq hstands hslice hclosed
    have hholds : QuoteMode.text.Holds (lead ++ content ++ trail) := hread.scan
    obtain ⟨hlead, hcontent⟩ := scan_lead hread.margins.lead_blank hholds
    obtain ⟨hopen, hscan, hfragment⟩ := scan_parts (tail_of_margin hread.margins.trail_blank) hcontent hparts
    obtain rfl : closed' = true := by
      cases closed' with
      | true => rfl
      | false => exact absurd hkind hopen
    have hinside := hfragment hkind
    have hraw := (apt_parts multiline content part (hparts ▸ List.mem_append_right _ List.mem_cons_self)).fragment true hkind
    simp only [if_true, List.cons_append] at hraw
    have hstart := hread.start_eq ps
    rw [← byteWidth_append] at hstart
    have hwhole := flatMap_raw_parts multiline content
    rw [hparts, List.flatMap_append, List.flatMap_cons, hraw] at hwhole
    rw [List.flatMap_cons, hraw] at hscan
    have hopening : byteWidth ['$', '\x7b'] = 2 := by decide
    have hclosing : byteWidth ['\x7d'] = 1 := by decide
    have hwidth : byteWidth part.raw = byteWidth part.inner + 3 := by
      have hpart : part.raw = ['$', '\x7b'] ++ part.inner ++ ['\x7d'] := hraw
      rw [hpart, byteWidth_append, byteWidth_append, hopening, hclosing]
      omega
    have htokens := hinner.tokens_eq
    have hopen' : byteWidth (before ++ beforeFragment front lead ps ++ ['$', '\x7b']) = span.start + 2 := by
      rw [byteWidth_append, hopening, hspan]
    rw [hopen', lexAt_none] at htokens
    have hstop : span.start + 2 + byteWidth part.inner = span.stop - 1 := by
      rw [hspan, hwidth]
      dsimp only
      omega
    obtain ⟨inside, hend⟩ : ∃ inside, (readLexemes (fragmentsAt none levels') (span.start + 2) (lexemes part.inner)).tokens =
        inside ++ [⟨.done, .point (span.stop - 1)⟩] :=
      ⟨_, by rw [readLexemes_tokens, flatMap_raw_lexemes, hstop]⟩
    have hcloses := (@closes_of_scan (fragmentsAt none levels') (span.start + 2) _ _ _ hinside).2
    refine ⟨lead ++ ps.flatMap (·.raw), part.inner, qs.flatMap (·.raw) ++ (trail ++ ['"']), inside, levels', ?_, ?_, ?_, ?_,
      (QuoteMode.holds_iff _).1 hinside, fun more => ?_, by rw [htokens, lexAt_none], htokens.trans hend, ?_⟩
    · rw [← hwhole]
      simp only [List.append_assoc, List.cons_append, List.nil_append]
    · rw [hspan, ← hstart, hwidth, byteWidth_append]
      simp only [Nat.add_assoc]
    · have hsource := hstands.source_eq
      rw [hread.text_eq hparts, ← List.append_assoc, ← List.append_assoc, List.append_assoc _ _ after] at hsource
      rw [hsource, hspan, slice?_middle, hraw]
    · refine hlead.trans ?_
      simpa only [List.append_assoc, List.cons_append, List.nil_append] using hscan
    · rw [closingBrace?_eq, show literalLength [.code 0] (part.inner ++ '\x7d' :: more) = some (part.inner.length + 1) from
        (QuoteMode.holds_iff more).1 hinside]
      rfl
    · rw [hend] at hcloses
      exact hcloses.balanced.of_done
  · intro limit fault hfault hspan
    obtain ⟨front, back, closed, lead, content, trail, hread⟩ := exists_readString (hstands.tokens_eq ▸ hmem) hliteral
    obtain ⟨rfl, rfl⟩ := hread.closed_eq hstands hslice hclosed
    have hholds : QuoteMode.text.Holds (lead ++ content ++ trail) := hread.scan
    have hall : fault ∈ (lexWithin none source).faults := by
      cases limit with
      | none => exact hfault
      | some n =>
        rw [faults_lexWithin] at hfault
        exact List.mem_of_mem_take hfault
    obtain ⟨hlo, hhi⟩ := Span.holds_iff.1 hspan
    have hwhole := congrArg byteWidth (flatMap_raw_lexemes text)
    rw [hread.lexemes_eq, List.flatMap_append, List.flatMap_cons, byteWidth_append, byteWidth_append] at hwhole
    dsimp only at hwhole
    have hstart := hread.start
    have hstop := hread.stop
    have hown := fault_of_lexeme hread.lexemes_eq (hstands.within fault hall (by omega) (by omega)) (by omega)
      (by dsimp only; omega)
    rw [← hstart, hread.faults_eq] at hown
    exact content_noneOpen (closedFragments levels) _ multiline hread.margins.lead_blank hread.margins.trail_blank hholds fault hown

/-- A fragment with a brace in a string, one in a comment, and one that closes it. -/
theorem fragments_of_closed_comment :
    ∃ token pieces quoted, token ∈ (lex "\"$\x7b f(\"\x7d\") // \x7d\n\x7d!\"").tokens ∧ token.kind = .str false pieces ∧
      slice? "\"$\x7b f(\"\x7d\") // \x7d\n\x7d!\"".toList token.span = some ('"' :: quoted) ∧
      literalLength [.text] quoted = some quoted.length ∧
      (∀ inner span, .fragment inner span ∈ pieces → ∃ before text after tokens levels,
        quoted = before ++ '$' :: '\x7b' :: (text ++ '\x7d' :: after) ∧
          span = ⟨token.span.start + 1 + byteWidth before, token.span.start + 1 + byteWidth before + byteWidth text + 3⟩ ∧
          slice? "\"$\x7b f(\"\x7d\") // \x7d\n\x7d!\"".toList span = some ('$' :: '\x7b' :: (text ++ ['\x7d'])) ∧
          Scan [.text] quoted [.text] ('$' :: '\x7b' :: (text ++ '\x7d' :: after)) ∧
          literalLength [.code 0] (text ++ '\x7d' :: after) = some (text.length + 1) ∧
          (∀ more, closingBrace? 0 (text ++ '\x7d' :: more) = some text.length) ∧
          inner = (lexAt none levels (span.start + 2) text).tokens ∧
          inner = tokens ++ [⟨.done, .point (span.stop - 1)⟩] ∧ Balanced tokens) ∧
      ∀ limit, ∀ fault ∈ (lexWithin limit "\"$\x7b f(\"\x7d\") // \x7d\n\x7d!\"").faults,
        token.span.holds fault.span = true → fault.cause ≠ .unterminatedString := by
  obtain ⟨pieces, hliteral⟩ : ∃ pieces, (lex "\"$\x7b f(\"\x7d\") // \x7d\n\x7d!\"").tokens[0]? = some ⟨.str false pieces, ⟨0, 19⟩⟩ :=
    ⟨_, rfl⟩
  obtain ⟨quoted, hslice, hclosed⟩ : ∃ quoted,
      slice? "\"$\x7b f(\"\x7d\") // \x7d\n\x7d!\"".toList ⟨0, 19⟩ = some ('"' :: quoted) ∧
        literalLength [.text] quoted = some quoted.length :=
    ⟨"$\x7b f(\"\x7d\") // \x7d\n\x7d!\"".toList, by decide +kernel, by decide +kernel⟩
  exact ⟨_, pieces, quoted, List.mem_of_getElem? hliteral, rfl, hslice, hclosed,
    fragments_of_closed .whole (List.mem_of_getElem? hliteral) rfl hslice hclosed⟩

end JuiceSyntax
