/-
  A text put into a string as a fragment of it, with a line break behind the text
  (`quotedFragment`).

  A text without lexical faults has the same tokens with a line break behind it, but that it ends
  one byte later (`tokens_newline`): no string is open at its end, and the line break ends the last
  comment. If its braces match, the scan of the string leaves the fragment just behind that line
  break, so the fragment holds these tokens in their new place (`lex_quotedFragment`).
-/
import JuiceSyntax.Proofs.Token.ClosedStrings
import JuiceSyntax.Proofs.Token.Relexing

namespace JuiceSyntax

/-! ## Offsets in a text -/

/-- Where nothing in a fragment is moved, its tokens stay as they are. -/
def FixedFragments (f : Nat → Nat) (fragment? : Option (Nat → List Char → Lexed)) : Prop :=
  ∀ lex, fragment? = some lex → ∀ offset text, (∀ n ≤ offset + byteWidth text, f n = n) →
    movedTokens f (lex offset text).tokens = (lex offset text).tokens

theorem Span.moved_fixed {f : Nat → Nat} {hi : Nat} (hf : ∀ n ≤ hi, f n = n) {span : Span} (hspan : span.start ≤ span.stop)
    (hle : span.stop ≤ hi) : span.moved f = span := by
  rw [Span.moved, hf _ (Nat.le_trans hspan hle), hf _ hle]

section

variable {f : Nat → Nat} {fragment? : Option (Nat → List Char → Lexed)}

theorem readParts_fixed (h : FixedFragments f fragment?) (offset : Nat) {ps : List Part} (hopened : ∀ part ∈ ps, part.Opened)
    (hf : ∀ n ≤ offset + byteWidth (ps.flatMap (·.raw)), f n = n) :
    movedPieces f (readParts fragment? offset ps).pieces = (readParts fragment? offset ps).pieces := by
  induction ps generalizing offset with
  | nil => rfl
  | cons part rest ih =>
    rw [List.flatMap_cons, byteWidth_append, ← Nat.add_assoc] at hf
    have hrest := ih (offset + byteWidth part.raw) (fun p hp => hopened p (List.mem_cons_of_mem _ hp)) hf
    have hspan : (⟨offset, offset + byteWidth part.raw⟩ : Span).moved f = ⟨offset, offset + byteWidth part.raw⟩ :=
      Span.moved_fixed hf (Nat.le_add_right _ _) (Nat.le_add_right _ _)
    unfold readParts
    cases hkind : part.kind with
    | fragment closed =>
      cases hlex : fragment? with
      | none =>
        subst hlex
        exact hrest
      | some lex =>
        subst hlex
        have hle := byteWidth_inner_add_le (hopened part List.mem_cons_self closed hkind)
        have hinner := h lex rfl (offset + 2) part.inner fun n hn => hf n (by omega)
        simp only [movedPieces, hinner, hspan, hrest]
    | _ => simp only [movedPieces, hspan, hrest]

theorem readLexeme_fixed (h : FixedFragments f fragment?) (offset : Nat) {lexeme : Lexeme} (hraw : lexeme.raw ≠ [])
    (hf : ∀ n ≤ offset + byteWidth lexeme.raw, f n = n) :
    movedTokens f (readLexeme fragment? offset lexeme).tokens = (readLexeme fragment? offset lexeme).tokens := by
  have hspan : (⟨offset, offset + byteWidth lexeme.raw⟩ : Span).moved f = ⟨offset, offset + byteWidth lexeme.raw⟩ :=
    Span.moved_fixed hf (Nat.le_add_right _ _) (Nat.le_refl _)
  unfold readLexeme
  cases lexeme.kind with
  | blank | comment | stray => rfl
  | string closed =>
    have hwhole : (⟨offset, offset + byteWidth lexeme.raw⟩ : Span).start + byteWidth lexeme.raw ≤
        (⟨offset, offset + byteWidth lexeme.raw⟩ : Span).stop := Nat.le_refl _
    obtain ⟨multiline, start, content, -, hstop, hread⟩ := readString_parts fragment? closed hraw hwhole
    have hpieces := readParts_fixed h start (opened_cutParts multiline content.length multiline content) fun n hn => by
      rw [flatMap_raw_cutParts multiline _ _ content (Nat.le_refl _)] at hn
      exact hf n (Nat.le_trans hn hstop)
    dsimp only
    rw [hread]
    simp only [movedTokens, Kind.moved, hspan]
    rw [parts, hpieces]
  | _ => simp only [movedTokens, Kind.moved, hspan]

theorem readLexemes_fixed (h : FixedFragments f fragment?) (offset : Nat) {ls : List Lexeme}
    (hraw : ∀ lexeme ∈ ls, lexeme.raw ≠ []) (hf : ∀ n ≤ offset + byteWidth (ls.flatMap (·.raw)), f n = n) :
    movedTokens f (readLexemes fragment? offset ls).tokens = (readLexemes fragment? offset ls).tokens := by
  induction ls generalizing offset with
  | nil => simp only [readLexemes, movedTokens, Kind.moved, Span.moved, Span.point, hf offset (Nat.le_add_right _ _)]
  | cons lexeme rest ih =>
    rw [List.flatMap_cons, byteWidth_append, ← Nat.add_assoc] at hf
    have hrest := ih (offset + byteWidth lexeme.raw) (fun l hl => hraw l (List.mem_cons_of_mem _ hl)) hf
    have hfirst := readLexeme_fixed h offset (hraw lexeme List.mem_cons_self) fun n hn => hf n (by omega)
    rw [readLexemes, Lexed.tokens_append, movedTokens_append, hfirst, hrest]

end

/-- The tokens of a text have no offsets but those in the text. -/
theorem lexAt_fixed {f : Nat → Nat} (levels offset : Nat) {text : List Char} (hf : ∀ n ≤ offset + byteWidth text, f n = n) :
    movedTokens f (lexAt none levels offset text).tokens = (lexAt none levels offset text).tokens := by
  have hlexemes {levels : Nat} (h : FixedFragments f (fragmentsAt none levels)) (offset : Nat) {text : List Char}
      (hf : ∀ n ≤ offset + byteWidth text, f n = n) :
      movedTokens f (lexAt none levels offset text).tokens = (lexAt none levels offset text).tokens := by
    rw [lexAt_none]
    exact readLexemes_fixed h offset (raw_ne_nil_cutLexemes text.length text) (by
      rwa [flatMap_raw_lexemes])
  induction levels generalizing offset text with
  | zero =>
    have hnone : FixedFragments f (fragmentsAt none 0) := fun _ hlex => nomatch hlex
    exact hlexemes hnone offset hf
  | succ levels ih =>
    refine hlexemes (fun lex hlex offset text hf => ?_) offset hf
    obtain rfl := Option.some.inj hlex
    exact ih offset hf

/-! ## The end of a text -/

/-- What follows tokens changes nothing of where these begin. -/
theorem places_append (tokens rest : List Token) : ∃ front, places (tokens ++ rest) = front ++ places rest ∧
    front.map startOf = (places tokens).map startOf := by
  induction tokens with
  | nil => exact ⟨[], rfl, rfl⟩
  | cons token tokens ih =>
    obtain ⟨front, hfront, hstarts⟩ := ih
    refine ⟨(token :: (tokens ++ rest)) :: (token.kind.places ++ front), ?_, ?_⟩
    · rw [List.cons_append, places_cons, hfront, List.cons_append, List.append_assoc]
    · rw [places_cons, List.map_cons, List.map_append, hstarts, List.map_cons, List.map_append]
      rfl

/-- If no string is open at the end of a text, all its tokens begin before that, also the ends of
fragments. -/
theorem startOf_lt_of_closed {levels offset : Nat} {text : List Char} {tokens : List Token} {last : Token}
    (hclosed : ∀ lexeme ∈ lexemes text, lexeme.kind ≠ .string false)
    (htokens : (lexAt none levels offset text).tokens = tokens ++ [last]) :
    ∀ place ∈ places tokens, startOf place < offset + byteWidth text := by
  have hspread : SpreadFragments (fragmentsAt none levels) := fun lex hlex offset text => by
    cases levels with
    | zero => cases hlex
    | succ levels =>
      obtain rfl := Option.some.inj hlex
      exact lexAt_spread none levels offset text
  -- A mark behind the text would begin at its end, and after all else.
  have hraw : ∀ lexeme ∈ lexemes text ++ [⟨.mark .comma, [',']⟩], lexeme.raw ≠ [] :=
    List.forall_mem_append.2 ⟨raw_ne_nil_cutLexemes text.length text, by simp⟩
  have hplaces := readLexemes_spread hspread offset hraw
    (List.forall_mem_append.2 ⟨raw_length_cutLexemes text.length text, by simp⟩)
    (List.pairwise_append.2 ⟨pairwise_cutLexemes text.length text, List.pairwise_singleton _ _, fun l hl _ _ => hclosed l hl⟩)
  rw [lexAt_none, readLexemes_tokens] at htokens
  obtain ⟨htokens, -⟩ := List.append_inj' htokens rfl
  obtain ⟨comma, back, hcomma, hmid, hread⟩ : ∃ comma back, comma.span.start = offset + byteWidth text ∧
      comma.kind.isDone = false ∧
      (readLexemes (fragmentsAt none levels) offset (lexemes text ++ [⟨.mark .comma, [',']⟩])).tokens =
        tokens ++ comma :: back := by
    rw [readLexemes_tokens, stretches_append, List.flatMap_append, htokens, flatMap_raw_lexemes, List.append_assoc]
    exact ⟨⟨.mark .comma, ⟨offset + byteWidth text, offset + byteWidth text + byteWidth [',']⟩⟩, _, rfl, rfl, rfl⟩
  obtain ⟨front, hfront, hstarts⟩ := places_append tokens (comma :: back)
  have horder := hplaces.order
  rw [hread, hfront] at horder
  intro place hmem
  obtain ⟨other, hother, hstart⟩ := List.mem_map.1 (hstarts ▸ List.mem_map_of_mem hmem)
  have hplace : comma :: back ∈ places (comma :: back) := by
    rw [places_cons]
    exact List.mem_cons_self
  obtain ⟨hle, hne⟩ := (List.pairwise_append.1 horder).2.2 other hother _ hplace
  have hcomma : startOf (comma :: back) = offset + byteWidth text := hcomma
  have hlt : startOf other ≠ startOf (comma :: back) := fun heq => by
    have hend : comma.kind.isDone = true := (hne heq).2
    exact absurd (hend.symm.trans hmid) (by decide)
  omega

/-- In a text without faults no string is open. -/
theorem closed_of_faults {levels offset : Nat} {text : List Char} (h : (lexAt none levels offset text).faults = []) :
    ∀ lexeme ∈ lexemes text, lexeme.kind ≠ .string false := by
  intro lexeme hmem hkind
  rw [lexAt_none, readLexemes_faults, List.flatMap_eq_nil_iff] at h
  rw [← map_lexeme_stretches offset (lexemes text)] at hmem
  obtain ⟨s, hs, rfl⟩ := List.mem_map.1 hmem
  have hnone := h s hs
  rw [Stretch.lexed, readLexeme, hkind] at hnone
  simp [readString] at hnone

/-! ## A line break at the end -/

theorem lex_eq_lexAt (source : String) (hline : shebangLine source.toList = []) :
    (lex source).tokens = (lexAt none fragmentLimit 0 source.toList).tokens ∧
      (lex source).faults = (lexAt none fragmentLimit 0 source.toList).faults.take faultLimit := by
  have hlex : lex source = { lexAt (some faultLimit) fragmentLimit 0 source.toList with shebang := none } := by
    rw [lex, lexWithin, hline]
    rfl
  obtain ⟨htokens, -, hfaults⟩ := lexAt_capped faultLimit fragmentLimit 0 source.toList
  rw [hlex]
  exact ⟨htokens, hfaults⟩

theorem eq_nil_of_take {α : Type} {n : Nat} {l : List α} (hn : 0 < n) (h : l.take n = []) : l = [] := by
  obtain rfl | hnil := List.take_eq_nil_iff.1 h
  · exact absurd hn (Nat.lt_irrefl 0)
  · exact hnil

theorem shebangLine_eq_nil {text : List Char} (h : ¬['#', '!'] <+: text) : shebangLine text = [] := by
  rw [shebangLine, if_neg (by rwa [List.isPrefixOf_iff_prefix])]

theorem shebangLine_newline {text : List Char} (h : ¬['#', '!'] <+: text) : shebangLine (text ++ ['\n']) = [] := by
  refine shebangLine_eq_nil fun hprefix => ?_
  obtain heq | hprefix := List.prefix_concat_iff.1 hprefix
  · obtain ⟨-, hlast⟩ := List.append_inj' (show ['#'] ++ ['!'] = text ++ ['\n'] from heq) rfl
    exact absurd hlast (by decide)
  · exact h hprefix

theorem readLexemes_blank (fragment? : Option (Nat → List Char → Lexed)) (offset : Nat) (ls : List Lexeme) (raw : List Char) :
    ∃ tokens, (readLexemes fragment? offset ls).tokens =
        tokens ++ [⟨.done, .point (offset + byteWidth (ls.flatMap (·.raw)))⟩] ∧
      (readLexemes fragment? offset (ls ++ [⟨.blank, raw⟩])).tokens =
        tokens ++ [⟨.done, .point (offset + byteWidth (ls.flatMap (·.raw)) + byteWidth raw)⟩] ∧
      (readLexemes fragment? offset (ls ++ [⟨.blank, raw⟩])).faults = (readLexemes fragment? offset ls).faults := by
  rw [readLexemes_stretches, readLexemes_stretches, stretches_append]
  refine ⟨_, rfl, ?_, ?_⟩
  · simp [stretches, Stretch.lexed, readLexeme, Lexed.empty, Nat.add_assoc]
  · simp [stretches, Stretch.lexed, readLexeme, Lexed.empty]

/-- With a line break behind it, a document without faults has the same tokens, of which only the
last stands elsewhere. -/
theorem tokens_newline {source : String} (hline : ¬['#', '!'] <+: source.toList) (hfaults : (lex source).faults = []) :
    ∃ tokens, (lex source).tokens = tokens ++ [⟨.done, .point (byteWidth source.toList)⟩] ∧
      (lex (source ++ "\n")).tokens = tokens ++ [⟨.done, .point (byteWidth source.toList + 1)⟩] ∧
      (lexAt none fragmentLimit 0 (source ++ "\n").toList).faults = [] ∧
      ∀ place ∈ places tokens, startOf place < byteWidth source.toList := by
  have htext : (source ++ "\n").toList = source.toList ++ ['\n'] := String.toList_append ..
  obtain ⟨hlex, htake⟩ := lex_eq_lexAt source (shebangLine_eq_nil hline)
  obtain ⟨hlex', -⟩ := lex_eq_lexAt (source ++ "\n") (by rw [htext, shebangLine_newline hline])
  have hnone := eq_nil_of_take (by decide) (htake.symm.trans hfaults)
  have hclosed := closed_of_faults hnone
  obtain ⟨tokens, htokens, htokens', hfaults'⟩ :=
    readLexemes_blank (fragmentsAt none fragmentLimit) 0 (lexemes source.toList) ['\n']
  rw [← lexemes_newline hclosed, ← lexAt_none, ← htext, Nat.zero_add, flatMap_raw_lexemes] at htokens'
  rw [← lexAt_none, Nat.zero_add, flatMap_raw_lexemes] at htokens
  rw [← lexemes_newline hclosed, ← lexAt_none, ← lexAt_none, ← htext, hnone] at hfaults'
  have hplaces := startOf_lt_of_closed hclosed htokens
  rw [Nat.zero_add] at hplaces
  exact ⟨tokens, hlex.trans htokens, hlex'.trans htokens', hfaults', hplaces⟩

/-- What stands behind the end of the document, moved to that, is the document without the line
break. -/
theorem moved_newline {source : String} (hline : ¬['#', '!'] <+: source.toList) (hfaults : (lex source).faults = []) :
    movedTokens (min · (byteWidth source.toList)) (lex (source ++ "\n")).tokens = (lex source).tokens := by
  obtain ⟨tokens, htokens, htokens', -, -⟩ := tokens_newline hline hfaults
  have hfixed : movedTokens (min · (byteWidth source.toList)) (lex source).tokens = (lex source).tokens := by
    rw [(lex_eq_lexAt source (shebangLine_eq_nil hline)).1]
    exact lexAt_fixed fragmentLimit 0 fun n hn => Nat.min_eq_left (by omega)
  rw [htokens, movedTokens_append] at hfixed
  obtain ⟨hfront, -⟩ := List.append_inj' hfixed rfl
  rw [htokens, htokens', movedTokens_append, hfront]
  simp [movedTokens, Kind.moved, Span.moved, Span.point]

/-- Nothing begins where the line break stands. -/
theorem startOf_newline {source : String} (hline : ¬['#', '!'] <+: source.toList) (hfaults : (lex source).faults = []) :
    ∀ place ∈ places (lex (source ++ "\n")).tokens,
      startOf place < byteWidth source.toList ∨ startOf place = byteWidth source.toList + 1 := by
  obtain ⟨tokens, -, htokens', -, hplaces⟩ := tokens_newline hline hfaults
  intro place hmem
  obtain ⟨front, hfront, hstarts⟩ := places_append tokens [⟨.done, .point (byteWidth source.toList + 1)⟩]
  rw [htokens', hfront] at hmem
  obtain hmem | hmem := List.mem_append.1 hmem
  · obtain ⟨other, hother, hstart⟩ := List.mem_map.1 (hstarts ▸ List.mem_map_of_mem hmem)
    rw [← hstart]
    exact .inl (hplaces other hother)
  · have hplace : place = [⟨.done, .point (byteWidth source.toList + 1)⟩] := by
      simpa [places, Kind.places] using hmem
    rw [hplace]
    exact .inr rfl

theorem laid_newline {source : String} (hline : ¬['#', '!'] <+: source.toList) :
    Laid 0 (lex (source ++ "\n")).tokens (byteWidth source.toList + 1) := by
  have htext : (source ++ "\n").toList = source.toList ++ ['\n'] := String.toList_append ..
  have hwidth : byteWidth (source.toList ++ ['\n']) = byteWidth source.toList + 1 := byteWidth_append _ _
  rw [(lex_eq_lexAt (source ++ "\n") (by rw [htext, shebangLine_newline hline])).1, htext, ← hwidth]
  have hlaid := lexAt_laid none fragmentLimit 0 (source.toList ++ ['\n'])
  rwa [Nat.zero_add] at hlaid

/-! ## A text that is one string -/

/-- A scan that passes the body gets to the quote behind it. -/
theorem holds_of_scan {body : List Char} (h : Scan [.text] (body ++ ['"']) [.text] ['"']) : QuoteMode.text.Holds body := by
  rw [QuoteMode.Holds, QuoteMode.closer, h.literalLength]
  simp [literalLength, Nat.add_comm]

theorem lexemes_quoted {body : List Char} (h : QuoteMode.text.Holds body) :
    lexemes ('"' :: (body ++ ['"'])) = [⟨.string true, '"' :: (body ++ ['"'])⟩] := by
  have hlength : literalLength [.text] (body ++ ['"']) = some (body ++ ['"']).length := by
    rw [List.length_append]
    exact h
  have hstring : lexemeAt '"' (body ++ ['"']) = (.string true, (body ++ ['"']).length + 1) := by
    have hstart : lexemeAt '"' (body ++ ['"']) = stringAt ('"' :: (body ++ ['"'])) := by
      simp [lexemeAt, isBlank, isDigit, startsName, isLower, isUpper]
    rw [hstart, stringAt, List.drop_one, List.tail_cons, hlength]
  have hfirst : firstLexeme '"' (body ++ ['"']) = ⟨.string true, '"' :: (body ++ ['"'])⟩ := by
    have htake : ('"' :: (body ++ ['"'])).take ((body ++ ['"']).length + 1) = '"' :: (body ++ ['"']) :=
      List.take_of_length_le (Nat.le_refl _)
    rw [firstLexeme, hstring]
    exact congrArg (Lexeme.mk _) htake
  have hwhole : '"' :: (body ++ ['"']) = (firstLexeme '"' (body ++ ['"'])).raw ++ [] := by
    rw [hfirst, List.append_nil]
  have hcut := lexemes_cons hwhole
  rw [hfirst] at hcut
  exact hcut

/-! ## The only fragment of a string -/

/-- A text as the only fragment of a string, with a line break behind it. -/
def quotedFragment (source : String) : String := "\"$\x7b" ++ source ++ "\n\x7d\""

/-- A fragment with its braces. -/
def braced (inner : List Char) : List Char := '$' :: '{' :: (inner ++ ['}'])

theorem toList_quotedFragment (source : String) :
    (quotedFragment source).toList = '"' :: (braced (source ++ "\n").toList ++ ['"']) := by
  simp [quotedFragment, braced]

theorem byteWidth_braced (inner : List Char) : byteWidth (braced inner) = byteWidth inner + 3 := by
  have hdollar : '$'.utf8Size = 1 := rfl
  have hopening : '{'.utf8Size = 1 := rfl
  have hclosing : '}'.utf8Size = 1 := rfl
  simp only [braced, byteWidth_cons, byteWidth_append, byteWidth_nil, hdollar, hopening, hclosing]
  omega

section

variable {inner : List Char}

theorem lexemes_braced (h : QuoteMode.Holds (.code 0) inner) :
    lexemes ('"' :: (braced inner ++ ['"'])) = [⟨.string true, '"' :: (braced inner ++ ['"'])⟩] := by
  have hscan : Scan [.text] (braced inner ++ ['"']) [.text] ['"'] := by
    rw [braced, List.cons_append, List.cons_append, List.append_assoc]
    exact .step rfl (h.scan [.text] ['"'])
  exact lexemes_quoted (holds_of_scan hscan)

theorem parts_braced (h : QuoteMode.Holds (.code 0) inner) : parts false (braced inner) = [⟨.fragment true, braced inner⟩] := by
  have hfirst : firstPart false false (braced inner) = ⟨.fragment true, braced inner⟩ := by
    have hlength : literalLength [.code 0] (inner ++ ['}']) = some (inner.length + 1) := h
    have htake : (inner ++ ['}']).take (inner.length + 1) = inner ++ ['}'] := List.take_of_length_le (by simp)
    simp [braced, firstPart, hlength, htake]
  have hcut : cutParts false (braced inner).length false (braced inner) =
      firstPart false false (braced inner) :: cutParts false ((inner ++ ['}']).length + 1) false
        ((braced inner).drop (firstPart false false (braced inner)).raw.length) := rfl
  rw [parts, hcut, hfirst, List.drop_length]
  rfl

/-- What is lexed from a string that is nothing but a fragment is what is lexed from the fragment,
in one token. -/
theorem lexAt_braced (h : QuoteMode.Holds (.code 0) inner) (levels : Nat) :
    (lexAt none (levels + 1) 0 ('"' :: (braced inner ++ ['"']))).tokens =
        [⟨.str false [.fragment (lexAt none levels 3 inner).tokens ⟨1, byteWidth inner + 4⟩], ⟨0, byteWidth inner + 5⟩⟩,
          ⟨.done, .point (byteWidth inner + 5)⟩] ∧
      (lexAt none (levels + 1) 0 ('"' :: (braced inner ++ ['"']))).faults = (lexAt none levels 3 inner).faults := by
  have hlines : multilineContent? (braced inner) = none := by
    simp [braced, multilineContent?, isLineBlank]
  have hinner : Part.inner ⟨.fragment true, braced inner⟩ = inner := by
    simp [Part.inner, braced]
  have hwidth : byteWidth ('"' :: (braced inner ++ ['"'])) = byteWidth inner + 5 := by
    have hquote : '"'.utf8Size = 1 := rfl
    rw [byteWidth_cons, byteWidth_append, byteWidth_braced, byteWidth_cons, byteWidth_nil, hquote]
    omega
  have hread (span : Span) : readString (some (lexAt none levels)) true ('"' :: (braced inner ++ ['"'])) span =
      ⟨[⟨.str false [.fragment (lexAt none levels (span.start + 3) inner).tokens
          ⟨span.start + 1, span.start + 1 + byteWidth (braced inner)⟩], span⟩],
        (lexAt none levels (span.start + 3) inner).comments, (lexAt none levels (span.start + 3) inner).faults⟩ := by
    unfold readString
    simp only [List.drop_one, List.tail_cons, if_true, List.dropLast_concat, hlines, parts_braced h, readParts, hinner,
      byteWidth_nil, Nat.add_zero, List.append_nil, List.nil_append, Nat.add_assoc, Nat.reduceAdd]
  have hlexemes : readLexemes (fragmentsAt none (levels + 1)) 0 [⟨.string true, '"' :: (braced inner ++ ['"'])⟩] =
      ⟨[⟨.str false [.fragment (lexAt none levels 3 inner).tokens ⟨1, byteWidth inner + 4⟩], ⟨0, byteWidth inner + 5⟩⟩,
          ⟨.done, .point (byteWidth inner + 5)⟩], (lexAt none levels 3 inner).comments, (lexAt none levels 3 inner).faults⟩ := by
    have hspan : 1 + (byteWidth inner + 3) = byteWidth inner + 4 := by omega
    simp only [readLexemes, readLexeme, hwidth, fragmentsAt, hread, byteWidth_braced, Nat.zero_add, hspan]
    exact congrArg₂ (Lexed.mk _) (List.append_nil _) (List.append_nil _)
  rw [lexAt_none, lexemes_braced h, hlexemes]
  exact ⟨rfl, rfl⟩

end

theorem holds_newline {source : String} (hline : ¬['#', '!'] <+: source.toList) (hfaults : (lex source).faults = [])
    (hcloses : Closes 0 (lex source).tokens) : QuoteMode.Holds (.code 0) (source ++ "\n").toList := by
  obtain ⟨htokens, htake⟩ := lex_eq_lexAt source (shebangLine_eq_nil hline)
  have hclosed := closed_of_faults (eq_nil_of_take (by decide) (htake.symm.trans hfaults))
  rw [htokens, lexAt_none] at hcloses
  have hlength := scan_of_closes hclosed hcloses []
  have htext : (source ++ "\n").toList = source.toList ++ ['\n'] := String.toList_append ..
  rw [QuoteMode.Holds, htext, List.append_assoc, List.length_append]
  exact hlength

/-- A document without faults, in which the braces match and fragments are not too deep to be in
another one, is the only fragment of its string and is lexed there as it is alone. -/
theorem lex_quotedFragment {source : String} (hline : ¬['#', '!'] <+: source.toList) (hfaults : (lex source).faults = [])
    (hdepth : fragmentDepth (lex source).tokens < fragmentLimit) (hcloses : Closes 0 (lex source).tokens) :
    ∃ span span', (lex (quotedFragment source)).tokens =
        [⟨.str false [.fragment (movedTokens (3 + ·) (lex (source ++ "\n")).tokens) span], span'⟩, ⟨.done, .point span'.stop⟩] ∧
      (lex (quotedFragment source)).faults = [] := by
  have htext : (source ++ "\n").toList = source.toList ++ ['\n'] := String.toList_append ..
  obtain ⟨levels, hlevels⟩ : ∃ levels, fragmentLimit = levels + 1 := ⟨63, rfl⟩
  obtain ⟨tokens, htokens, htokens', hnone, -⟩ := tokens_newline hline hfaults
  have hlex := (lex_eq_lexAt (source ++ "\n") (by rw [htext, shebangLine_newline hline])).1
  obtain ⟨hquoted, htake⟩ := lex_eq_lexAt (quotedFragment source) (by rw [toList_quotedFragment]; rfl)
  -- The text is lexed alike one level down.
  have hinner : lexAt none levels 0 (source ++ "\n").toList = lexAt none fragmentLimit 0 (source ++ "\n").toList := by
    refine lexAt_of_shallow (by rw [hnone]; nofun) ?_
    rw [← hlex, htokens', fragmentDepth_append]
    rw [htokens, fragmentDepth_append, hlevels] at hdepth
    exact Nat.le_of_lt_succ hdepth
  have hmoved : lexAt none levels 3 (source ++ "\n").toList = (lexAt none levels 0 (source ++ "\n").toList).moved (3 + ·) :=
    lexAt_moved none levels 3 0 _
  obtain ⟨hfragment, hfaults'⟩ := lexAt_braced (holds_newline hline hfaults hcloses) levels
  rw [← toList_quotedFragment, ← hlevels, hmoved, hinner] at hfragment hfaults'
  refine ⟨⟨1, byteWidth (source ++ "\n").toList + 4⟩, ⟨0, byteWidth (source ++ "\n").toList + 5⟩, ?_, ?_⟩
  · rw [hquoted, hfragment, hlex]
    rfl
  · rw [htake, hfaults', Lexed.moved, hnone]
    rfl

end JuiceSyntax
