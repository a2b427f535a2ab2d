/-
  What a string stands for, glyph by glyph: the characters of its value, with the markers between
  them. Parts are cut as long as they go, so characters that stand next to each other are in one part;
  `glyphsFrom` does not tell how they are cut, and has one equation for each thing that a content can
  begin with: a marker (`glyphsFrom_marked`), an escape (`glyphsFrom_escape`), any other character
  (`glyphsFrom_text`).

  `readParts_glyphs`: parts without a fragment or a bad escape are read without a fault, and the pieces
  stand for the same glyphs.
-/
import JuiceSyntax.Proofs.Token.ByteSplit
import JuiceSyntax.Proofs.Token.Wrapping

namespace JuiceSyntax

inductive Glyph where
  /-- A character of the value. -/
  | char (c : Char)
  /-- The marker of a line, which is not part of the value. -/
  | marker
  /-- A fragment, or a backslash that begins no escape; its value is not known from the text. -/
  | other
deriving DecidableEq, Repr, Inhabited

def Glyph.char? : Glyph → Option Char
  | char c => some c
  | _ => none

theorem filterMap_char (cs : List Char) : (cs.map Glyph.char).filterMap Glyph.char? = cs := by
  simp [List.filterMap_map, Function.comp_def, Glyph.char?]

theorem count_marker_char (cs : List Char) : (cs.map Glyph.char).count .marker = 0 := by simp [List.count_eq_zero]

def Part.glyphs (part : Part) : List Glyph :=
  match part.kind with
  | .text => part.raw.map .char
  | .escape value => [.char value]
  | .indent => [.marker]
  | .badEscape _ | .fragment _ => [.other]

/-- The glyphs of a content, which is at the start of a line or not. -/
def glyphsFrom (multiline atLineStart : Bool) (content : List Char) : List Glyph :=
  (partsFrom multiline atLineStart content).flatMap Part.glyphs

section

variable {multiline : Bool} {c : Char} {cs content : List Char}

theorem glyphsFrom_nil (multiline atLineStart : Bool) : glyphsFrom multiline atLineStart [] = [] := rfl

theorem glyphsFrom_unmarked (h : indentLength? content = none) (atLineStart atLineStart' : Bool) :
    glyphsFrom multiline atLineStart content = glyphsFrom multiline atLineStart' content := by
  rw [glyphsFrom, partsFrom_unmarked h atLineStart atLineStart', glyphsFrom]

theorem glyphsFrom_marked {n : Nat} (h : indentLength? content = some n) :
    glyphsFrom multiline true content = .marker :: glyphsFrom multiline false (content.drop n) := by
  cases content with
  | nil => cases h
  | cons c cs =>
    rw [glyphsFrom, partsFrom_cons, firstPart_marked h, List.flatMap_cons, drop_length_take]
    cases multiline <;> rfl

theorem glyphsFrom_escape {value : Char} {n : Nat} (h : escape? cs = some (value, n)) (atLineStart : Bool) :
    glyphsFrom multiline atLineStart ('\\' :: cs) = .char value :: glyphsFrom multiline false (cs.drop n) := by
  have hfirst : firstPart multiline atLineStart ('\\' :: cs) = ⟨.escape value, ('\\' :: cs).take (n + 1)⟩ := by
    rw [firstPart_escape, h]
  rw [glyphsFrom, partsFrom_cons, hfirst, List.flatMap_cons, drop_length_take]
  cases multiline <;> rfl

/-- The characters up to an escape, a fragment or a marked line. -/
theorem glyphsFrom_run (multiline : Bool) (content : List Char) :
    glyphsFrom multiline false content =
      (content.take (textLength multiline content)).map .char ++
        glyphsFrom multiline multiline (content.drop (textLength multiline content)) := by
  cases content with
  | nil => rfl
  | cons c cs =>
    cases hbegins : beginsPart (c :: cs) with
    | true =>
      rw [textLength_of_begins hbegins]
      exact glyphsFrom_unmarked (indentLength?_of_begins hbegins) _ _
    | false =>
      have hfirst : firstPart multiline false (c :: cs) = ⟨.text, (c :: cs).take (textLength multiline (c :: cs))⟩ :=
        firstPart_text rfl hbegins
      rw [glyphsFrom, partsFrom_cons, hfirst, List.flatMap_cons, drop_length_take]
      simp only [beq_self_eq_true, Bool.and_true]
      rfl

/-- A character that begins nothing else; behind a line break a marker can stand. -/
theorem glyphsFrom_text (h : beginsPart (c :: cs) = false) :
    glyphsFrom multiline false (c :: cs) = .char c :: glyphsFrom multiline (c == '\n' && multiline) cs := by
  rw [glyphsFrom_run, textLength_cons h]
  split
  · rename_i hmarked
    obtain ⟨hline, -⟩ := Bool.and_eq_true_iff.1 hmarked
    rw [hline, (Bool.and_eq_true_iff.1 hline).2]
    rfl
  · rename_i hmarked
    have hsame : glyphsFrom multiline (c == '\n' && multiline) cs = glyphsFrom multiline false cs := by
      cases hline : c == '\n' && multiline with
      | false => rfl
      | true =>
        rw [hline, Bool.true_and, Option.not_isSome_iff_eq_none] at hmarked
        exact glyphsFrom_unmarked hmarked _ _
    rw [hsame, glyphsFrom_run multiline cs]
    rfl

theorem beginsPart_of_ne (hescape : c ≠ '\\') (hfragment : c = '$' → cs.head? ≠ some '{') : beginsPart (c :: cs) = false := by
  rw [← Bool.not_eq_true, beginsPart_iff]
  rintro (rfl | ⟨rfl, hhead⟩)
  · exact hescape rfl
  · exact hfragment rfl hhead

theorem beginsPart_of_literal (h : isLiteral c = true) : beginsPart (c :: cs) = false := by
  obtain ⟨⟨-, hescape⟩, hdollar⟩ := by simpa [isLiteral] using h
  exact beginsPart_of_ne hescape fun heq => absurd heq hdollar

/-- Text within a line, whatever follows it. -/
theorem glyphsFrom_literal {text : List Char} (h : text.all isLiteral = true) (hline : '\n' ∉ text) (rest : List Char) :
    glyphsFrom multiline false (text ++ rest) = text.map .char ++ glyphsFrom multiline false rest := by
  induction text with
  | nil => rfl
  | cons c cs ih =>
    rw [List.all_cons, Bool.and_eq_true] at h
    have hc : (c == '\n') = false := beq_false_of_ne fun heq => hline (heq ▸ List.mem_cons_self)
    rw [List.cons_append, glyphsFrom_text (beginsPart_of_literal h.1), hc, Bool.false_and,
      ih h.2 fun hmem => hline (List.mem_cons_of_mem _ hmem)]
    rfl

end

/-! ## Pieces -/

def Piece.glyphs : Piece → List Glyph
  | .text chars _ => chars.toList.map .char
  | .escape value _ _ => [.char value]
  | .indent _ => [.marker]
  | .fragment _ _ => [.other]

/-- Parts of which it is known what they stand for are read without a fault, and the pieces stand for
the same. -/
theorem readParts_glyphs (fragment? : Option (Nat → List Char → Lexed)) (offset : Nat) {ps : List Part}
    (h : .other ∉ ps.flatMap Part.glyphs) :
    (readParts fragment? offset ps).pieces.flatMap Piece.glyphs = ps.flatMap Part.glyphs ∧
      (readParts fragment? offset ps).faults = [] := by
  induction ps generalizing offset with
  | nil => exact ⟨rfl, rfl⟩
  | cons part rest ih =>
    rw [List.flatMap_cons, List.mem_append, not_or] at h
    obtain ⟨hpart, hrest⟩ := h
    obtain ⟨hglyphs, hfaults⟩ := ih (offset + byteWidth part.raw) hrest
    unfold readParts
    rw [List.flatMap_cons, ← hglyphs]
    unfold Part.glyphs at hpart ⊢
    cases hkind : part.kind with
    | text => exact ⟨by simp [Piece.glyphs], hfaults⟩
    | escape value | indent => exact ⟨rfl, hfaults⟩
    | badEscape value | fragment closed =>
      rw [hkind] at hpart
      exact absurd List.mem_cons_self hpart

/-! ## A text that is one string -/

/-- A text between quotes. -/
def inQuotes (body : List Char) : String := String.ofList ('"' :: (body ++ ['"']))

/-- The glyphs of the content of a body. -/
def bodyGlyphs (body : List Char) : List Glyph :=
  match multilineContent? body with
  | some (_, content) => glyphsFrom true true content
  | none => glyphsFrom false false body

section

variable {body : List Char}

theorem readString_glyphs (fragment? : Option (Nat → List Char → Lexed)) (span : Span) (h : .other ∉ bodyGlyphs body) :
    ∃ pieces comments, readString fragment? true ('"' :: (body ++ ['"'])) span =
        ⟨[⟨.str (multilineContent? body).isSome pieces, span⟩], comments, []⟩ ∧
      pieces.flatMap Piece.glyphs = bodyGlyphs body := by
  unfold readString
  unfold bodyGlyphs at h ⊢
  simp only [List.drop_one, List.tail_cons, if_true, List.dropLast_concat, List.nil_append]
  cases hcontent : multilineContent? body with
  | some found =>
    obtain ⟨lead, content⟩ := found
    rw [hcontent] at h
    obtain ⟨hglyphs, hfaults⟩ := readParts_glyphs fragment? (span.start + 1 + byteWidth lead) h
    exact ⟨_, _, congrArg (Lexed.mk _ _) hfaults, hglyphs⟩
  | none =>
    rw [hcontent] at h
    obtain ⟨hglyphs, hfaults⟩ := readParts_glyphs fragment? (span.start + 1 + byteWidth []) h
    exact ⟨_, _, congrArg (Lexed.mk _ _) hfaults, hglyphs⟩

/-- A text that is one string is lexed as that, without a fault. -/
theorem lex_inQuotes (hholds : QuoteMode.text.Holds body) (h : .other ∉ bodyGlyphs body) :
    ∃ pieces place stop,
      (lex (inQuotes body)).tokens = [⟨.str (multilineContent? body).isSome pieces, place⟩, ⟨.done, stop⟩] ∧
        (lex (inQuotes body)).faults = [] ∧ pieces.flatMap Piece.glyphs = bodyGlyphs body := by
  have htext : (inQuotes body).toList = '"' :: (body ++ ['"']) := String.toList_ofList
  obtain ⟨htokens, hfaults⟩ := lex_eq_lexAt (inQuotes body) (by rw [htext]; rfl)
  obtain ⟨pieces, comments, hread, hglyphs⟩ := readString_glyphs (fragmentsAt none fragmentLimit)
    ⟨0, byteWidth ('"' :: (body ++ ['"']))⟩ h
  have hlexemes : readLexemes (fragmentsAt none fragmentLimit) 0 [⟨.string true, '"' :: (body ++ ['"'])⟩] =
      ⟨[⟨.str (multilineContent? body).isSome pieces, ⟨0, byteWidth ('"' :: (body ++ ['"']))⟩⟩,
        ⟨.done, .point (byteWidth ('"' :: (body ++ ['"'])))⟩], comments, []⟩ := by
    simp only [readLexemes, readLexeme, Nat.zero_add, hread]
    exact congrArg (Lexed.mk _ · _) (List.append_nil _)
  rw [htext, lexAt_none, lexemes_quoted hholds, hlexemes] at htokens hfaults
  exact ⟨pieces, _, _, htokens, hfaults, hglyphs⟩

end

end JuiceSyntax
