/-
  Documents that are one string literal, and the value of that (`isString_inQuotes`).

  `isString_rendered`: within a line every text can be written as a literal. Each character of it may be
  written in any way that `Renders` knows, whatever way the others are written; what is read is the text.
-/
import JuiceSyntax.Proofs.Grammar.Transparency
import JuiceSyntax.Proofs.Token.ByteParts
import JuiceSyntax.Proofs.Token.Glyphs

namespace JuiceSyntax

open Grammar

/-! ## Literals without fragments -/

section

variable {pieces : List Piece}

theorem segments_of_glyphs (h : .other ∉ pieces.flatMap Piece.glyphs) :
    ∃ parts, Segment.plain? parts = some (String.ofList ((pieces.flatMap Piece.glyphs).filterMap Glyph.char?)) ∧
      ∀ L s, segments pieces L s = .ok parts s := by
  induction pieces with
  | nil => exact ⟨[], rfl, fun _ _ => rfl⟩
  | cons piece rest ih =>
    rw [List.flatMap_cons, List.mem_append, not_or] at h
    obtain ⟨parts, hplain, hread⟩ := ih h.2
    cases piece with
    | text chars span =>
      refine ⟨.text chars span :: parts, ?_, fun L s => by rw [segments, bind_apply, hread]; rfl⟩
      have hchars : (Piece.text chars span).glyphs.filterMap Glyph.char? = chars.toList := filterMap_char _
      simp [Segment.plain?, hplain, hchars]
    | escape value raw span =>
      refine ⟨.escape value raw span :: parts, ?_, fun L s => by rw [segments, bind_apply, hread]; rfl⟩
      simp [Segment.plain?, hplain, Piece.glyphs, Glyph.char?]
    | indent span => exact ⟨parts, hplain, hread⟩
    | fragment tokens span => exact absurd List.mem_cons_self h.1

theorem length_indentSpans (pieces : List Piece) :
    (indentSpans pieces).length = (pieces.flatMap Piece.glyphs).count .marker := by
  induction pieces with
  | nil => rfl
  | cons piece rest ih =>
    rw [List.flatMap_cons, List.count_append, ← ih]
    cases piece with
    | text chars span =>
      rw [Piece.glyphs, count_marker_char, Nat.zero_add]
      rfl
    | escape value raw span | fragment tokens span => exact (Nat.zero_add _).symm
    | indent span => exact Nat.add_comm _ _

end

/-! ## Documents -/

/-- The number of markers of a literal over several lines. -/
def Layout.markers? : Layout → Option Nat
  | .inline => none
  | .lines markers => some markers.length

/-- The document is clean, and a string literal with this value; over several lines with so many
markers, or within one. -/
structure ExprDocument.IsString (d : ExprDocument) (value : String) (markers? : Option Nat) : Prop where
  clean : d.isClean = true
  literal : ∃ segments layout span,
    d.expr = some ⟨.str segments layout, span⟩ ∧ Segment.plain? segments = some value ∧ layout.markers? = markers?

/-- A text that is one string, of which it is known what all glyphs stand for, is a literal with their
characters as its value. -/
theorem isString_inQuotes {body : List Char} (hholds : QuoteMode.text.Holds body) (h : .other ∉ bodyGlyphs body) :
    (ExprDocument.read (inQuotes body)).IsString (String.ofList ((bodyGlyphs body).filterMap Glyph.char?))
      (if (multilineContent? body).isSome then some ((bodyGlyphs body).count .marker) else none) := by
  obtain ⟨pieces, place, stop, htokens, hfaults, hglyphs⟩ := lex_inQuotes hholds h
  rw [← hglyphs] at h ⊢
  obtain ⟨parts, hplain, hsegments⟩ := segments_of_glyphs h
  have hstring : chain 1 .value (level (.ofSource (inQuotes body) .standard) 255) (.ofTokens (lex (inQuotes body)).tokens) =
      .ok ⟨.str parts (if (multilineContent? body).isSome then .lines (indentSpans pieces) else .inline), place⟩
        { State.ofTokens [] with cursor := ⟨1, some place, [⟨.done, stop⟩], 1, rfl⟩ } := by
    rw [htokens]
    exact chain_string place stop (hsegments _ _)
  have hread : readExpr (.ofSource (inQuotes body) .standard) (lex (inQuotes body)).tokens = _ := readExpr_of_read hstring rfl
  have hdocument : ExprDocument.read (inQuotes body) =
      ⟨some ⟨.str parts (if (multilineContent? body).isSome then .lines (indentSpans pieces) else .inline), place⟩, [], []⟩ := by
    rw [ExprDocument.read, hread, hfaults]
    rfl
  rw [hdocument]
  refine ⟨rfl, _, _, _, rfl, hplain, ?_⟩
  split
  · exact congrArg some (length_indentSpans pieces)
  · rfl

/-! ## Characters of a literal -/

/-- The letters of the short escapes, with what they stand for. -/
def shortEscapes : List (Char × Char) :=
  [('"', '"'), ('\\', '\\'), ('/', '/'), ('b', '\x08'), ('f', '\x0c'), ('n', '\n'), ('r', '\r'), ('t', '\t'), ('$', '$'),
    ('0', '\x00')]

/-- Hexadecimal digits of the code of a character. -/
structure HexCode (c : Char) (digits : List Char) : Prop where
  hex : ∀ d ∈ digits, (Radix.hex.digit? d).isSome = true
  value : Radix.hex.positional digits = c.toNat

/-- A way to write a character in a literal. -/
inductive Renders : Char → List Char → Prop
  | verbatim {c : Char} (quote : c ≠ '"') (escape : c ≠ '\\') (dollar : c ≠ '$') (newline : c ≠ '\n') : Renders c [c]
  | short {letter c : Char} (known : (letter, c) ∈ shortEscapes) : Renders c ['\\', letter]
  | braced {c : Char} {digits : List Char} (some_digit : digits ≠ []) (six_digits : digits.length ≤ 6) (code : HexCode c digits) :
    Renders c ('\\' :: 'u' :: '{' :: (digits ++ ['}']))
  | four {c : Char} {digits : List Char} (four_digits : digits.length = 4) (code : HexCode c digits) :
    Renders c ('\\' :: 'u' :: digits)

section

variable {c : Char} {raw digits : List Char}

theorem hexCode?_of_hexCode (h : HexCode c digits) : hexCode? digits = some c := by
  have hdigits : hexDigits? digits = some c.toNat := by
    rw [hexDigits?, if_pos (List.all_eq_true.2 h.hex), h.value]
  rw [hexCode?, hdigits]
  exact dif_pos c.valid

/-- What stands behind the digits is no part of the escape. -/
theorem unicodeEscape?_rendered_braced (h : HexCode c digits) (hne : digits ≠ []) (hle : digits.length ≤ 6) (rest : List Char) :
    unicodeEscape? ('{' :: (digits ++ '}' :: rest)) = some (c, digits.length + 2) := by
  have hcode := hexCode?_of_hexCode h
  have hinside : ∀ d ∈ digits, (d != '}') = true := fun d hd => bne_iff_ne.2 fun heq => by
    have hdigit := h.hex d hd
    rw [heq] at hdigit
    exact absurd hdigit (by decide)
  rw [unicodeEscape?_braced, List.takeWhile_append_of_pos hinside, List.dropWhile_append_of_pos hinside]
  simp [byteWidth_of_hexCode hcode, Nat.not_lt.2 hle, hne, hcode]

theorem unicodeEscape?_rendered_four (h : HexCode c digits) (hlength : digits.length = 4) (rest : List Char) :
    unicodeEscape? (digits ++ rest) = some (c, 4) := by
  have hbrace : ∀ braced, digits ++ rest ≠ '{' :: braced := by
    obtain ⟨d, ds, rfl⟩ := List.exists_cons_of_length_pos (l := digits) (by omega)
    rintro braced heq
    have hdigit := h.hex d List.mem_cons_self
    rw [(List.cons.inj heq).1] at hdigit
    exact absurd hdigit (by decide)
  rw [unicodeEscape?_four hbrace, ← hlength, List.take_left, if_neg (by simp), hexCode?_of_hexCode h]
  rfl

/-- A character is written as itself, or as an escape that is read as it whatever follows. -/
theorem Renders.escape (h : Renders c raw) :
    raw = [c] ∧ c ≠ '"' ∧ c ≠ '\\' ∧ c ≠ '$' ∧ c ≠ '\n' ∨
      ∃ body, raw = '\\' :: body ∧ '\n' ∉ body ∧ ∀ rest, escape? (body ++ rest) = some (c, body.length) := by
  have hline {digits : List Char} (hcode : HexCode c digits) : '\n' ∉ digits := fun hmem =>
    absurd (hcode.hex _ hmem) (by decide)
  cases h with
  | verbatim quote escape dollar newline => exact .inl ⟨rfl, quote, escape, dollar, newline⟩
  | @short letter _ known =>
    have hknown : ∀ pair ∈ shortEscapes, '\n' ∉ [pair.1] ∧ simpleEscape? pair.1 = some pair.2 := by decide
    obtain ⟨hletter, hsimple⟩ := hknown _ known
    refine .inr ⟨[letter], rfl, hletter, fun rest => ?_⟩
    rw [List.singleton_append, escape?_cons, hsimple]
    rfl
  | @braced _ digits some_digit six_digits code =>
    refine .inr ⟨_, rfl, by simp [hline code], fun rest => ?_⟩
    have hunicode := unicodeEscape?_rendered_braced code some_digit six_digits rest
    simp [escape?, hunicode]
  | @four _ digits four_digits code =>
    refine .inr ⟨_, rfl, by simp [hline code], fun rest => ?_⟩
    have hunicode := unicodeEscape?_rendered_four code four_digits rest
    simp [escape?, hunicode, four_digits]

theorem Renders.newline (h : Renders c raw) : '\n' ∉ raw := by
  obtain ⟨rfl, -, -, -, hline⟩ | ⟨body, rfl, hline, -⟩ := h.escape
  · simpa using hline.symm
  · simpa using hline

/-- The scan of a literal passes it whole. -/
theorem Renders.scan (h : Renders c raw) (modes : List QuoteMode) (more : List Char) :
    Scan (.text :: modes) (raw ++ more) (.text :: modes) more := by
  obtain ⟨rfl, hquote, hescape, hdollar, -⟩ | ⟨body, rfl, -, hread⟩ := h.escape
  · exact .one (scanStep?_text modes hquote hescape fun heq => absurd heq hdollar)
  · -- The scan passes the character behind the backslash unseen; the others mean nothing to it.
    obtain ⟨d, ds, m, hbody, hlength, hliteral⟩ := escape?_literal (hread [])
    rw [List.append_nil] at hbody
    subst hbody
    obtain rfl : ds.length = m := Nat.succ.inj hlength
    rw [List.take_length] at hliteral
    exact .step (by simp [scanStep?]) (scan_literal hliteral modes more)

theorem Renders.glyphs (h : Renders c raw) (rest : List Char) :
    glyphsFrom false false (raw ++ rest) = .char c :: glyphsFrom false false rest := by
  obtain ⟨rfl, hquote, hescape, hdollar, -⟩ | ⟨body, rfl, -, hread⟩ := h.escape
  · have hbegins : beginsPart (c :: rest) = false := beginsPart_of_literal (by simp [isLiteral, hquote, hescape, hdollar])
    rw [List.singleton_append, glyphsFrom_text hbegins, Bool.and_false]
  · rw [List.cons_append, glyphsFrom_escape (hread rest), List.drop_left]

end

/-! ## Texts in a literal -/

section

variable {cs : List Char} {raws : List (List Char)}

theorem newline_not_mem_rendered (h : List.Forall₂ Renders cs raws) : '\n' ∉ raws.flatten := by
  induction h with
  | nil => exact List.not_mem_nil
  | cons first _ ih =>
    rw [List.flatten_cons, List.mem_append, not_or]
    exact ⟨first.newline, ih⟩

theorem scan_rendered (h : List.Forall₂ Renders cs raws) (modes : List QuoteMode) (more : List Char) :
    Scan (.text :: modes) (raws.flatten ++ more) (.text :: modes) more := by
  induction h with
  | nil => exact .here
  | cons first _ ih =>
    rw [List.flatten_cons, List.append_assoc]
    exact (first.scan modes _).trans ih

theorem glyphs_rendered (h : List.Forall₂ Renders cs raws) : glyphsFrom false false raws.flatten = cs.map .char := by
  induction h with
  | nil => rfl
  | cons first _ ih => rw [List.flatten_cons, first.glyphs, ih, List.map_cons]

theorem multilineContent?_eq_none {body : List Char} (h : '\n' ∉ body) : multilineContent? body = none := by
  unfold multilineContent?
  split
  · rename_i rest hrest
    exact absurd ((List.dropWhile_suffix _).subset (hrest ▸ List.mem_cons_self)) h
  · rfl

end

/-- A text, each character of which is written in one of its ways, is read back from between quotes. -/
theorem isString_rendered {value : String} {raws : List (List Char)} (h : List.Forall₂ Renders value.toList raws) :
    (ExprDocument.read (inQuotes raws.flatten)).IsString value none := by
  have hinline := multilineContent?_eq_none (newline_not_mem_rendered h)
  have hglyphs : bodyGlyphs raws.flatten = value.toList.map .char := by
    rw [bodyGlyphs, hinline]
    exact glyphs_rendered h
  have hstring := isString_inQuotes (holds_of_scan (scan_rendered h [] ['"'])) (by simp [hglyphs])
  rwa [hglyphs, hinline, filterMap_char, String.ofList_toList] at hstring

/-- The same accent in two ways, and a fragment that is none. -/
theorem isString_rendered_accents :
    List.Forall₂ Renders "éé\n$\x7b".toList [['é'], ['\\', 'u', '{', 'E', '9', '}'], ['\\', 'n'], ['\\', 'u', '0', '0', '2', '4'], ['{']] ∧
      (ExprDocument.read (inQuotes [['é'], ['\\', 'u', '{', 'E', '9', '}'], ['\\', 'n'], ['\\', 'u', '0', '0', '2', '4'],
        ['{']].flatten)).IsString "éé\n$\x7b" none := by
  have hrendered : List.Forall₂ Renders "éé\n$\x7b".toList
      [['é'], ['\\', 'u', '{', 'E', '9', '}'], ['\\', 'n'], ['\\', 'u', '0', '0', '2', '4'], ['{']] :=
    .cons (.verbatim (by decide) (by decide) (by decide) (by decide))
      (.cons (.braced (show ['E', '9'] ≠ [] by decide) (by decide) ⟨List.all_eq_true.1 rfl, by decide⟩)
        (.cons (.short (by decide))
          (.cons (.four rfl ⟨List.all_eq_true.1 rfl, by decide⟩)
            (.cons (.verbatim (by decide) (by decide) (by decide) (by decide)) .nil))))
  exact ⟨hrendered, isString_rendered hrendered⟩

end JuiceSyntax
