/-
  Strings over several lines. What their line breaks are of makes no difference to the markers
  (`indentLength?_breaks`), and next to none to the value (`glyphs_breaks`).

  `isString_marked`: the value of a literal whose lines are all marked is the lines, with line breaks
  between them.

  `isString_crlf`: with a carriage return before each of its line breaks, a literal has the same markers,
  and its value has one before each of its line breaks. But the carriage return of the line break before the
  closing quote stays in the value: only the line break itself is no content.
-/
import JuiceSyntax.Proofs.Grammar.StringLiterals

namespace JuiceSyntax

/-! ## Line breaks -/

/-- The text with these characters before each of its line breaks. -/
def breaks (returns cs : List Char) : List Char := cs.flatMap fun c => if c = '\n' then returns ++ ['\n'] else [c]

section

variable {returns cs : List Char} {c : Char}

theorem breaks_cons_of_ne (h : c ≠ '\n') : breaks returns (c :: cs) = c :: breaks returns cs := by
  rw [breaks, List.flatMap_cons, if_neg h]
  rfl

theorem breaks_newline : breaks returns ('\n' :: cs) = returns ++ '\n' :: breaks returns cs := by
  rw [breaks, List.flatMap_cons, if_pos rfl, List.append_assoc]
  rfl

theorem breaks_append (cs' : List Char) : breaks returns (cs ++ cs') = breaks returns cs ++ breaks returns cs' :=
  List.flatMap_append

theorem breaks_of_not_mem (h : '\n' ∉ cs) : breaks returns cs = cs := by
  induction cs with
  | nil => rfl
  | cons c cs ih =>
    rw [breaks_cons_of_ne fun heq => h (heq ▸ List.mem_cons_self), ih fun hmem => h (List.mem_cons_of_mem _ hmem)]

theorem breaks_nil (cs : List Char) : breaks [] cs = cs := by
  induction cs with
  | nil => rfl
  | cons c cs ih =>
    by_cases hc : c = '\n'
    · rw [hc, breaks_newline, ih, List.nil_append]
    · rw [breaks_cons_of_ne hc, ih]

/-! ## Markers -/

/-- The length of a marker that no blanks stand before. -/
def barLength? : List Char → Option Nat
  | ['|'] => some 1
  | '|' :: c :: _ => if c == ' ' then some 2 else if c == '\n' || c == '\r' then some 1 else none
  | _ => none

theorem barLength?_of_ne (h : c ≠ '|') : barLength? (c :: cs) = none := by
  unfold barLength?
  split
  · rename_i heq
    exact absurd (List.cons.inj heq).1 h
  · rename_i heq
    exact absurd (List.cons.inj heq).1 h
  · rfl

theorem indentLength?_eq (line : List Char) :
    indentLength? line = (barLength? (line.dropWhile fun c => c == ' ' || c == '\t')).map
      ((line.takeWhile fun c => c == ' ' || c == '\t').length + ·) := by
  unfold indentLength?
  dsimp only
  rw [drop_takeWhile]
  generalize line.dropWhile (fun c => c == ' ' || c == '\t') = tail
  fun_cases barLength? tail
  all_goals simp_all

theorem indentLength?_cons (c : Char) (cs : List Char) :
    indentLength? (c :: cs) = if c == ' ' || c == '\t' then (indentLength? cs).map (· + 1) else barLength? (c :: cs) := by
  rw [indentLength?_eq, indentLength?_eq, List.takeWhile_cons, List.dropWhile_cons]
  cases c == ' ' || c == '\t' with
  | true => simp [Function.comp_def, Nat.add_right_comm]
  | false => simp

theorem indentLength?_of_other (hblank : (c == ' ' || c == '\t') = false) (hbar : c ≠ '|') (cs : List Char) :
    indentLength? (c :: cs) = none := by
  rw [indentLength?_cons, hblank, if_neg (by decide), barLength?_of_ne hbar]

/-- A carriage return is no blank that a line is indented by. -/
theorem indentLength?_returns (hreturns : ∀ c ∈ returns, c = '\r') (h : indentLength? cs = none) :
    indentLength? (returns ++ cs) = none := by
  cases returns with
  | nil => exact h
  | cons d rest =>
    rw [hreturns d List.mem_cons_self]
    exact indentLength?_of_other (by decide) (by decide) _

theorem barLength?_returns (hreturns : ∀ c ∈ returns, c = '\r') (h : barLength? ('|' :: cs) = some 1) :
    barLength? ('|' :: (returns ++ cs)) = some 1 := by
  cases returns with
  | nil => exact h
  | cons d rest =>
    rw [hreturns d List.mem_cons_self]
    rfl

/-- A bar is followed by the end of its line alike. -/
theorem barLength?_breaks (hreturns : ∀ c ∈ returns, c = '\r') (cs : List Char) :
    barLength? ('|' :: (breaks returns cs ++ returns)) = barLength? ('|' :: cs) := by
  cases cs with
  | nil =>
    have hend : barLength? ('|' :: (returns ++ [])) = some 1 := barLength?_returns hreturns rfl
    rwa [List.append_nil] at hend
  | cons c cs =>
    by_cases hc : c = '\n'
    · rw [hc, breaks_newline, List.append_assoc]
      exact barLength?_returns hreturns rfl
    · rw [breaks_cons_of_ne hc]
      rfl

/-- At the end of the text only the carriage returns are left of a line break. -/
theorem indentLength?_breaks (hreturns : ∀ c ∈ returns, c = '\r') (cs : List Char) :
    indentLength? (breaks returns cs ++ returns) = indentLength? cs := by
  induction cs with
  | nil =>
    have hend : indentLength? (returns ++ []) = none := indentLength?_returns hreturns rfl
    rwa [List.append_nil] at hend
  | cons c cs ih =>
    by_cases hline : c = '\n'
    · have hnone (cs : List Char) : indentLength? ('\n' :: cs) = none := indentLength?_of_other (by decide) (by decide) cs
      rw [hline, breaks_newline, List.append_assoc, hnone]
      exact indentLength?_returns hreturns (hnone _)
    · rw [breaks_cons_of_ne hline, List.cons_append, indentLength?_cons, indentLength?_cons, ih]
      by_cases hc : c = '|'
      · rw [hc, barLength?_breaks hreturns]
      · rw [barLength?_of_ne hc, barLength?_of_ne hc]

/-- Behind a marker comes the rest of the text. -/
theorem drop_marker_breaks {n : Nat} (h : indentLength? cs = some n) :
    (breaks returns cs ++ returns).drop n = breaks returns (cs.drop n) ++ returns := by
  obtain ⟨hle, hmarker⟩ := mem_marker h
  have hline : '\n' ∉ cs.take n := fun hmem => by
    obtain heq | heq | heq := hmarker _ hmem
    all_goals exact absurd heq (by decide)
  have hsplit : breaks returns (cs.take n ++ cs.drop n) = cs.take n ++ breaks returns (cs.drop n) := by
    rw [breaks_append, breaks_of_not_mem hline]
  rw [List.take_append_drop] at hsplit
  have hlength : (cs.take n).length = n := by rw [List.length_take, Nat.min_eq_left hle]
  rw [hsplit, List.append_assoc, List.drop_append, hlength, List.drop_of_length_le (Nat.le_of_eq hlength), Nat.sub_self]
  rfl

end

/-! ## Texts as written -/

/-- In the text is no quote, and nothing but a marker stands for anything else than itself. -/
structure Verbatim (cs : List Char) : Prop where
  quote : '"' ∉ cs
  escape : '\\' ∉ cs
  fragment : ¬['$', '{'] <:+: cs

/-- A glyph with these characters before it, if it is a line break. -/
def Glyph.breaks (returns : List Char) (glyph : Glyph) : List Glyph :=
  if glyph = .char '\n' then returns.map .char ++ [glyph] else [glyph]

section

variable {returns cs : List Char} {c : Char}

theorem Verbatim.of_suffix {cs' : List Char} (h : Verbatim cs) (hsuffix : cs' <:+ cs) : Verbatim cs' :=
  ⟨fun hmem => h.quote (hsuffix.subset hmem), fun hmem => h.escape (hsuffix.subset hmem),
    fun hpart => h.fragment (hpart.trans hsuffix.isInfix)⟩

theorem Verbatim.head (h : Verbatim (c :: cs)) : c ≠ '"' ∧ c ≠ '\\' ∧ (c = '$' → cs.head? ≠ some '{') := by
  refine ⟨fun heq => h.quote (heq ▸ List.mem_cons_self), fun heq => h.escape (heq ▸ List.mem_cons_self), ?_⟩
  rintro rfl hbrace
  obtain ⟨rest, rfl⟩ := List.head?_eq_some_iff.1 hbrace
  exact h.fragment (List.prefix_append ['$', '{'] rest).isInfix

theorem head_returns (hreturns : ∀ c ∈ returns, c = '\r') (h : cs.head? ≠ some '{') : (returns ++ cs).head? ≠ some '{' := by
  cases returns with
  | nil => exact h
  | cons d rest => simp [hreturns d List.mem_cons_self]

/-- No brace comes to stand behind a dollar sign. -/
theorem head_breaks (hreturns : ∀ c ∈ returns, c = '\r') {more : List Char} (hmore : more.head? ≠ some '{')
    (h : cs.head? ≠ some '{') : (breaks returns cs ++ more).head? ≠ some '{' := by
  cases cs with
  | nil => exact hmore
  | cons c cs =>
    by_cases hc : c = '\n'
    · rw [hc, breaks_newline, List.append_assoc]
      exact head_returns hreturns (by simp)
    · rw [breaks_cons_of_ne hc]
      exact h

theorem all_literal_returns (hreturns : ∀ c ∈ returns, c = '\r') : returns.all isLiteral = true ∧ '\n' ∉ returns :=
  ⟨List.all_eq_true.2 fun c hc => by rw [hreturns c hc]; decide, fun hmem => absurd (hreturns _ hmem) (by decide)⟩

theorem scan_breaks (hreturns : ∀ c ∈ returns, c = '\r') (h : Verbatim cs) (modes : List QuoteMode) {more : List Char}
    (hmore : more.head? ≠ some '{') :
    Scan (.text :: modes) (breaks returns cs ++ more) (.text :: modes) more := by
  induction cs with
  | nil => exact .here
  | cons c cs ih =>
    have hrest := ih (h.of_suffix (List.suffix_cons c cs))
    obtain ⟨hquote, hescape, hfragment⟩ := h.head
    by_cases hc : c = '\n'
    · have hreturn : (returns ++ ['\n']).all isLiteral = true := by
        rw [List.all_append, (all_literal_returns hreturns).1]
        decide
      have hscan := scan_literal hreturn modes (breaks returns cs ++ more)
      rw [List.append_assoc, List.singleton_append] at hscan
      rw [hc, breaks_newline, List.append_assoc]
      exact hscan.trans hrest
    · rw [breaks_cons_of_ne hc]
      exact .step (scanStep?_text modes hquote hescape fun heq => head_breaks hreturns hmore (hfragment heq)) hrest

/-- The glyphs of a text are those without the carriage returns, with these before each line break and
those of the last line at its end. -/
theorem glyphs_breaks (hreturns : ∀ c ∈ returns, c = '\r') (h : Verbatim cs) (atLineStart : Bool) :
    glyphsFrom true atLineStart (breaks returns cs ++ returns) =
      (glyphsFrom true atLineStart cs).flatMap (Glyph.breaks returns) ++ returns.map .char := by
  obtain ⟨hliteral, hline⟩ := all_literal_returns hreturns
  induction hlength : cs.length using Nat.strongRecOn generalizing cs atLineStart with
  | ind length ih =>
    subst hlength
    cases hmarker : (if atLineStart then indentLength? cs else none) with
    | some n =>
      obtain ⟨rfl, hindent⟩ : atLineStart = true ∧ indentLength? cs = some n := by
        cases atLineStart with
        | true => exact ⟨rfl, hmarker⟩
        | false => cases hmarker
      have hpos := indentLength?_pos hindent
      have hle := (mem_marker hindent).1
      have hrest := ih (cs.drop n).length (by rw [List.length_drop]; omega) (h.of_suffix (List.drop_suffix n cs)) false rfl
      rw [glyphsFrom_marked ((indentLength?_breaks hreturns cs).trans hindent), glyphsFrom_marked hindent,
        drop_marker_breaks hindent, hrest]
      rfl
    | none =>
      have hunmarked : glyphsFrom true atLineStart cs = glyphsFrom true false cs ∧
          glyphsFrom true atLineStart (breaks returns cs ++ returns) = glyphsFrom true false (breaks returns cs ++ returns) := by
        cases atLineStart with
        | true =>
          exact ⟨glyphsFrom_unmarked hmarker _ _, glyphsFrom_unmarked ((indentLength?_breaks hreturns cs).trans hmarker) _ _⟩
        | false => exact ⟨rfl, rfl⟩
      rw [hunmarked.1, hunmarked.2]
      cases cs with
      | nil =>
        have hreturn : glyphsFrom true false (returns ++ []) = returns.map .char ++ glyphsFrom true false [] :=
          glyphsFrom_literal hliteral hline []
        rwa [List.append_nil, glyphsFrom_nil, List.append_nil] at hreturn
      | cons c cs =>
        obtain ⟨-, hescape, hfragment⟩ := h.head
        have hrest := ih cs.length (Nat.lt_succ_self _) (h.of_suffix (List.suffix_cons c cs))
        rw [glyphsFrom_text (beginsPart_of_ne hescape hfragment), List.flatMap_cons, List.append_assoc]
        by_cases hc : c = '\n'
        · rw [hc, breaks_newline, List.append_assoc, glyphsFrom_literal hliteral hline, List.cons_append,
            glyphsFrom_text rfl, ← hrest _ rfl]
          simp [Glyph.breaks]
        · have hmore : (returns ++ []).head? ≠ some '{' := head_returns hreturns (by simp)
          rw [List.append_nil] at hmore
          have hhead : c = '$' → (breaks returns cs ++ returns).head? ≠ some '{' := fun heq =>
            head_breaks hreturns hmore (hfragment heq)
          rw [breaks_cons_of_ne hc, List.cons_append, glyphsFrom_text (beginsPart_of_ne hescape hhead), ← hrest _ rfl]
          simp [Glyph.breaks, hc]

/-- A text as written begins with a marker, or with a character that stands for itself. -/
theorem glyphs_verbatim_cons (h : Verbatim (c :: cs)) (atLineStart : Bool) :
    (∃ n, 0 < n ∧ glyphsFrom true atLineStart (c :: cs) = .marker :: glyphsFrom true false ((c :: cs).drop n)) ∨
      glyphsFrom true atLineStart (c :: cs) = .char c :: glyphsFrom true (c == '\n') cs := by
  obtain ⟨-, hescape, hfragment⟩ := h.head
  have htext : glyphsFrom true false (c :: cs) = .char c :: glyphsFrom true (c == '\n') cs := by
    rw [glyphsFrom_text (beginsPart_of_ne hescape hfragment), Bool.and_true]
  cases atLineStart with
  | false => exact .inr htext
  | true =>
    cases hindent : indentLength? (c :: cs) with
    | some n => exact .inl ⟨n, indentLength?_pos hindent, glyphsFrom_marked hindent⟩
    | none => exact .inr ((glyphsFrom_unmarked hindent _ _).trans htext)

theorem other_not_mem_glyphs (h : Verbatim cs) (atLineStart : Bool) : .other ∉ glyphsFrom true atLineStart cs := by
  induction hlength : cs.length using Nat.strongRecOn generalizing cs atLineStart with
  | ind length ih =>
    subst hlength
    cases cs with
    | nil => exact List.not_mem_nil
    | cons c cs =>
      obtain ⟨n, hpos, hglyphs⟩ | hglyphs := glyphs_verbatim_cons h atLineStart
      · have hrest := ih _ (by rw [List.length_drop, List.length_cons]; omega) (h.of_suffix (List.drop_suffix n _)) false rfl
        simpa [hglyphs] using hrest
      · have hrest := ih cs.length (Nat.lt_succ_self _) (h.of_suffix (List.suffix_cons c cs)) (c == '\n') rfl
        simpa [hglyphs] using hrest

/-! ## Values -/

theorem chars_breaks (glyphs : List Glyph) :
    (glyphs.flatMap (Glyph.breaks returns)).filterMap Glyph.char? = breaks returns (glyphs.filterMap Glyph.char?) := by
  induction glyphs with
  | nil => rfl
  | cons glyph rest ih =>
    rw [List.flatMap_cons, List.filterMap_append, ih]
    cases glyph with
    | char c =>
      have hcons : (Glyph.char c :: rest).filterMap Glyph.char? = c :: rest.filterMap Glyph.char? := rfl
      rw [hcons]
      by_cases hc : c = '\n'
      · rw [hc, breaks_newline, Glyph.breaks, if_pos rfl, List.filterMap_append, filterMap_char, List.append_assoc]
        rfl
      · rw [breaks_cons_of_ne hc, Glyph.breaks, if_neg (by simpa using hc)]
        rfl
    | marker | other => rfl

theorem count_breaks (glyphs : List Glyph) :
    (glyphs.flatMap (Glyph.breaks returns)).count .marker = glyphs.count .marker := by
  induction glyphs with
  | nil => rfl
  | cons glyph rest ih =>
    rw [List.flatMap_cons, List.count_append, ih]
    cases glyph with
    | char c =>
      have hnone : (Glyph.breaks returns (.char c)).count .marker = 0 := by
        rw [List.count_eq_zero, Glyph.breaks]
        split <;> simp
      rw [hnone, Nat.zero_add]
      rfl
    | marker =>
      rw [List.count_cons_self]
      exact Nat.add_comm _ _
    | other => exact Nat.zero_add _

theorem other_not_mem_breaks {glyphs : List Glyph} (h : .other ∉ glyphs) : .other ∉ glyphs.flatMap (Glyph.breaks returns) := by
  intro hmem
  obtain ⟨glyph, hglyph, hother⟩ := List.mem_flatMap.1 hmem
  rw [Glyph.breaks] at hother
  split at hother
  · simp_all
  · exact h (List.mem_singleton.1 hother ▸ hglyph)

end

/-! ## Literals -/

section

variable {lead content trail returns : List Char}

theorem multilineContent?_of_blank (hlead : lead.all isLineBlank = true) (rest : List Char) :
    multilineContent? (lead ++ '\n' :: rest) = some (lead ++ ['\n'], keptLines rest) := by
  have hblank := List.all_eq_true.1 hlead
  rw [multilineContent?_keptLines, List.dropWhile_append_of_pos hblank, List.takeWhile_append_of_pos hblank]
  simp [isLineBlank]

theorem literal_of_blank {cs : List Char} (h : cs.all isLineBlank = true) : cs.all isLiteral = true :=
  List.all_eq_true.2 fun c hc => by
    have hblank := List.all_eq_true.1 h c hc
    simp only [isLineBlank, Bool.or_eq_true, beq_iff_eq] at hblank
    obtain (rfl | rfl) | rfl := hblank
    all_goals decide

/-- A literal with one line break only is empty. -/
theorem isString_empty (hlead : lead.all isLineBlank = true) (htrail : trail.all isLineBlank = true) :
    (ExprDocument.read (inQuotes (lead ++ '\n' :: trail))).IsString "" (some 0) := by
  have hliteral : (lead ++ '\n' :: trail).all isLiteral = true := by
    rw [List.all_append, literal_of_blank hlead, List.all_cons, literal_of_blank htrail]
    decide
  have hcontent := multilineContent?_of_blank hlead trail
  rw [keptLines_blank htrail] at hcontent
  have hglyphs : bodyGlyphs (lead ++ '\n' :: trail) = [] := by
    rw [bodyGlyphs, hcontent]
    rfl
  have hstring := isString_inQuotes (holds_of_scan (scan_literal hliteral [] ['"'])) (by simp [hglyphs])
  rwa [hglyphs, hcontent] at hstring

/-- The value of a literal of several lines as written, with these characters before each line break but
the first. -/
theorem isString_lines (hreturns : ∀ c ∈ returns, c = '\r') (hlead : lead.all isLineBlank = true)
    (htrail : trail.all isLineBlank = true) (h : Verbatim content) :
    (ExprDocument.read (inQuotes (lead ++ '\n' :: (breaks returns content ++ returns ++ '\n' :: trail)))).IsString
      (String.ofList (breaks returns ((glyphsFrom true true content).filterMap Glyph.char?) ++ returns))
      (some ((glyphsFrom true true content).count .marker)) := by
  have hcontent := multilineContent?_of_blank hlead (breaks returns content ++ returns ++ '\n' :: trail)
  rw [keptLines_newline _ htrail] at hcontent
  have hglyphs : bodyGlyphs (lead ++ '\n' :: (breaks returns content ++ returns ++ '\n' :: trail)) =
      (glyphsFrom true true content).flatMap (Glyph.breaks returns) ++ returns.map .char := by
    rw [bodyGlyphs, hcontent]
    exact glyphs_breaks hreturns h true
  have hother : .other ∉ bodyGlyphs (lead ++ '\n' :: (breaks returns content ++ returns ++ '\n' :: trail)) := by
    rw [hglyphs, List.mem_append, not_or]
    exact ⟨other_not_mem_breaks (other_not_mem_glyphs h true), by simp⟩
  have hholds : QuoteMode.text.Holds (lead ++ '\n' :: (breaks returns content ++ returns ++ '\n' :: trail)) := by
    have hopening : (lead ++ ['\n']).all isLiteral = true := by
      rw [List.all_append, literal_of_blank hlead]
      decide
    have hclosing : (returns ++ '\n' :: trail).all isLiteral = true := by
      rw [List.all_append, List.all_cons, (all_literal_returns hreturns).1, literal_of_blank htrail]
      decide
    have hbrace : (returns ++ '\n' :: trail ++ ['"']).head? ≠ some '{' := by
      rw [List.append_assoc]
      exact head_returns hreturns (by simp)
    have hscan := (scan_literal hopening [] _).trans
      ((scan_breaks hreturns h [] hbrace).trans (scan_literal hclosing [] ['"']))
    refine holds_of_scan ?_
    simpa only [List.append_assoc, List.cons_append, List.nil_append] using hscan
  have hstring := isString_inQuotes hholds hother
  rwa [hglyphs, hcontent, List.filterMap_append, chars_breaks, filterMap_char, List.count_append, count_breaks,
    count_marker_char] at hstring

theorem isString_verbatim (hlead : lead.all isLineBlank = true) (htrail : trail.all isLineBlank = true)
    (h : Verbatim content) :
    (ExprDocument.read (inQuotes (lead ++ '\n' :: (content ++ '\n' :: trail)))).IsString
      (String.ofList ((glyphsFrom true true content).filterMap Glyph.char?))
      (some ((glyphsFrom true true content).count .marker)) := by
  have hnone : ∀ c ∈ ([] : List Char), c = '\r' := nofun
  have hstring := isString_lines hnone hlead htrail h
  rwa [breaks_nil, breaks_nil, List.append_nil, List.append_nil] at hstring

end

/-! ## Marked lines -/

/-- A blank that a line can be indented by. -/
def isIndent (c : Char) : Bool := c == ' ' || c == '\t'

theorem lineBlank_of_indent {cs : List Char} (h : cs.all isIndent = true) : cs.all isLineBlank = true :=
  List.all_eq_true.2 fun c hc => by
    have hblank : (c == ' ' || c == '\t') = true := List.all_eq_true.1 h c hc
    rw [isLineBlank, hblank, Bool.true_or]

/-- A line of a literal as written, with a marker. -/
structure MarkedLine where
  indent : List Char
  /-- No space stands behind the bar. -/
  bare : Bool
  text : String
  indent_blank : indent.all isIndent = true
  text_literal : ∀ c ∈ text.toList, isLiteral c = true ∧ c ≠ '\n' ∧ c ≠ '\r'
  empty_of_bare : bare = true → text = ""

namespace MarkedLine

def raw (line : MarkedLine) : List Char := line.indent ++ '|' :: ((if line.bare then [] else [' ']) ++ line.text.toList)

/-- A text is behind the line, if anything is. -/
def Ended (rest : List Char) : Prop := ∀ c, rest.head? = some c → c = '\n'

theorem indentLength?_indent {indent : List Char} (h : indent.all isIndent = true) (line : List Char) :
    indentLength? (indent ++ line) = (indentLength? line).map (indent.length + ·) := by
  induction indent with
  | nil => simp
  | cons c cs ih =>
    rw [List.all_cons, Bool.and_eq_true] at h
    have hc : (c == ' ' || c == '\t') = true := h.1
    rw [List.cons_append, indentLength?_cons, if_pos hc, ih h.2, Option.map_map]
    exact congrArg (Option.map · _) (funext fun n => by simp [Nat.add_right_comm])

variable (line : MarkedLine)

theorem indentLength?_raw {rest : List Char} (h : Ended rest) :
    indentLength? (line.raw ++ rest) = some (line.indent.length + (if line.bare then 1 else 2)) := by
  rw [raw, List.append_assoc, indentLength?_indent line.indent_blank, List.cons_append, indentLength?_cons, if_neg (by decide)]
  cases hbare : line.bare with
  | true =>
    rw [line.empty_of_bare hbare]
    cases rest with
    | nil => rfl
    | cons c cs => rw [h c rfl]; rfl
  | false => rfl

theorem glyphs_raw {rest : List Char} (h : Ended rest) :
    glyphsFrom true true (line.raw ++ rest) = .marker :: (line.text.toList.map .char ++ glyphsFrom true false rest) := by
  have hdrop : (line.raw ++ rest).drop (line.indent.length + (if line.bare then 1 else 2)) = line.text.toList ++ rest := by
    rw [raw, List.append_assoc, List.drop_length_add_append]
    cases line.bare <;> rfl
  rw [glyphsFrom_marked (line.indentLength?_raw h), hdrop, glyphsFrom_literal]
  · exact List.all_eq_true.2 fun c hc => (line.text_literal c hc).1
  · exact fun hmem => (line.text_literal _ hmem).2.1 rfl

theorem literal_raw : line.raw.all isLiteral = true := by
  have hindent := literal_of_blank (lineBlank_of_indent line.indent_blank)
  have htext : line.text.toList.all isLiteral = true := List.all_eq_true.2 fun c hc => (line.text_literal c hc).1
  have hspace : (if line.bare then [] else [' ']).all isLiteral = true := by cases line.bare <;> decide
  rw [raw, List.all_append, List.all_cons, List.all_append, hindent, hspace, htext]
  decide

end MarkedLine

theorem intercalate_cons_cons {α : Type} (separator first next : List α) (rest : List (List α)) :
    separator.intercalate (first :: next :: rest) = first ++ (separator ++ separator.intercalate (next :: rest)) := by
  simp [List.intercalate]

theorem intercalate_singleton {α : Type} (separator only : List α) : separator.intercalate [only] = only := by
  simp [List.intercalate]

/-- The lines, with line breaks between them. -/
def joinedLines (lines : List MarkedLine) : List Char := ['\n'].intercalate (lines.map MarkedLine.raw)

theorem joinedLines_cons (line next : MarkedLine) (rest : List MarkedLine) :
    joinedLines (line :: next :: rest) = line.raw ++ '\n' :: joinedLines (next :: rest) :=
  intercalate_cons_cons ['\n'] line.raw next.raw _

theorem joinedLines_singleton (line : MarkedLine) : joinedLines [line] = line.raw := intercalate_singleton ['\n'] line.raw

theorem flatMap_lines (line : MarkedLine) (rest : List MarkedLine) :
    (line :: rest).flatMap (fun line => line.raw ++ ['\n']) = joinedLines (line :: rest) ++ ['\n'] := by
  induction rest generalizing line with
  | nil => rw [List.flatMap_cons, List.flatMap_nil, List.append_nil, joinedLines_singleton]
  | cons next rest ih => rw [List.flatMap_cons, ih next, joinedLines_cons, List.append_assoc, List.append_assoc]; rfl

theorem literal_joinedLines (lines : List MarkedLine) : (joinedLines lines).all isLiteral = true := by
  induction lines with
  | nil => rfl
  | cons line rest ih =>
    cases rest with
    | nil => rw [joinedLines_singleton, line.literal_raw]
    | cons next rest =>
      rw [joinedLines_cons, List.all_append, line.literal_raw, List.all_cons, ih]
      decide

/-- The glyphs of the lines are those of their texts, a marker for each line and the line breaks. -/
theorem glyphs_joinedLines (lines : List MarkedLine) :
    (glyphsFrom true true (joinedLines lines)).filterMap Glyph.char? = ['\n'].intercalate (lines.map (·.text.toList)) ∧
      (glyphsFrom true true (joinedLines lines)).count .marker = lines.length := by
  induction lines with
  | nil => exact ⟨rfl, rfl⟩
  | cons line rest ih =>
    have hline (more : List Glyph) :
        (Glyph.marker :: (line.text.toList.map Glyph.char ++ more)).filterMap Glyph.char? =
            line.text.toList ++ more.filterMap Glyph.char? ∧
          (Glyph.marker :: (line.text.toList.map Glyph.char ++ more)).count .marker = more.count .marker + 1 := by
      have hcons : (Glyph.marker :: (line.text.toList.map Glyph.char ++ more)).filterMap Glyph.char? =
          (line.text.toList.map Glyph.char ++ more).filterMap Glyph.char? := rfl
      rw [hcons, List.filterMap_append, filterMap_char, List.count_cons_self, List.count_append, count_marker_char, Nat.zero_add]
      exact ⟨rfl, rfl⟩
    cases rest with
    | nil =>
      have hended : MarkedLine.Ended [] := nofun
      have hglyphs := line.glyphs_raw hended
      rw [List.append_nil] at hglyphs
      rw [joinedLines_singleton, hglyphs, (hline _).1, (hline _).2, List.map_singleton, intercalate_singleton]
      exact ⟨List.append_nil _, rfl⟩
    | cons next rest =>
      have hended : MarkedLine.Ended ('\n' :: joinedLines (next :: rest)) := fun c hc => (Option.some.inj hc).symm
      have hbreak : glyphsFrom true false ('\n' :: joinedLines (next :: rest)) =
          .char '\n' :: glyphsFrom true true (joinedLines (next :: rest)) := glyphsFrom_text rfl
      have hvalue : ['\n'].intercalate ((line :: next :: rest).map (·.text.toList)) =
          line.text.toList ++ '\n' :: ['\n'].intercalate ((next :: rest).map (·.text.toList)) := intercalate_cons_cons _ _ _ _
      rw [joinedLines_cons, line.glyphs_raw hended, hbreak, (hline _).1, (hline _).2, hvalue, ← ih.1]
      refine ⟨rfl, ?_⟩
      rw [List.count_cons_of_ne (by simp), ih.2]
      rfl

/-- The body of a literal with these lines. -/
def markedBody (lead : List Char) (lines : List MarkedLine) (trail : List Char) : List Char :=
  lead ++ '\n' :: (lines.flatMap (fun line => line.raw ++ ['\n']) ++ trail)

theorem Verbatim.of_literal {cs : List Char} (h : cs.all isLiteral = true) : Verbatim cs := by
  have hnot {d : Char} (hd : isLiteral d = false) : d ∉ cs := fun hmem =>
    absurd ((List.all_eq_true.1 h d hmem).symm.trans hd) (by decide)
  exact ⟨hnot (by decide), hnot (by decide), fun hpart => hnot (d := '$') (by decide) (hpart.subset List.mem_cons_self)⟩

/-- A literal of marked lines has a marker for each of them, and they are its value. -/
theorem isString_marked (lines : List MarkedLine) {lead trail : List Char} (hlead : lead.all isIndent = true)
    (htrail : trail.all isIndent = true) :
    (ExprDocument.read (inQuotes (markedBody lead lines trail))).IsString ("\n".intercalate (lines.map (·.text)))
      (some lines.length) := by
  have hlead := lineBlank_of_indent hlead
  have htrail := lineBlank_of_indent htrail
  cases lines with
  | nil => exact isString_empty hlead htrail
  | cons line rest =>
    have hstring := isString_verbatim hlead htrail (.of_literal (literal_joinedLines (line :: rest)))
    obtain ⟨hvalue, hmarkers⟩ := glyphs_joinedLines (line :: rest)
    have hjoined : String.ofList (['\n'].intercalate ((line :: rest).map (·.text.toList))) =
        "\n".intercalate ((line :: rest).map (·.text)) := by
      refine String.toList_inj.1 ?_
      rw [String.toList_ofList, String.toList_intercalate, List.map_map]
      rfl
    rw [hvalue, hmarkers, hjoined] at hstring
    rw [markedBody, flatMap_lines, List.append_assoc]
    exact hstring

/-- An empty line, and one that begins with a bar. -/
theorem isString_marked_bars :
    [' ', '\t'].all isIndent = true ∧ [' '].all isIndent = true ∧
      (ExprDocument.read (inQuotes (markedBody [' ', '\t']
        [⟨[' '], true, "", rfl, nofun, fun _ => rfl⟩, ⟨[], false, "| é", rfl, by simp [isLiteral], nofun⟩] [' ']))).IsString
        "\n| é" (some 2) :=
  ⟨by decide, by decide, isString_marked
    [⟨[' '], true, "", rfl, nofun, fun _ => rfl⟩, ⟨[], false, "| é", rfl, by simp [isLiteral], nofun⟩] (by decide) (by decide)⟩

/-! ## Carriage returns -/

/-- The text with a carriage return before each of its line breaks. -/
def crlf (cs : List Char) : List Char := cs.flatMap fun c => if c = '\n' then ['\r', '\n'] else [c]

/-- The body of a literal over several lines, as written, whose closing quote stands on a line of its
own. -/
structure LineBody (body : List Char) : Prop extends Verbatim body where
  opens : ∃ lead rest, body = lead ++ '\n' :: rest ∧ lead.all isIndent = true
  closes : ∃ front trail, body = front ++ '\n' :: trail ∧ trail.all isIndent = true

/-- Between the first and the last of the line breaks is the content, unless they are one. -/
theorem LineBody.cases {body : List Char} (h : LineBody body) :
    ∃ lead trail, lead.all isIndent = true ∧ trail.all isIndent = true ∧
      (body = lead ++ '\n' :: trail ∨ ∃ content, body = lead ++ '\n' :: (content ++ '\n' :: trail)) := by
  obtain ⟨lead, rest, rfl, hlead⟩ := h.opens
  obtain ⟨front, trail, hbody, htrail⟩ := h.closes
  refine ⟨lead, trail, hlead, htrail, ?_⟩
  obtain ⟨mid, rfl, hrest⟩ | ⟨mid, rfl, htail⟩ := List.append_eq_append_iff.1 hbody
  · cases mid with
    | nil => exact .inl (by rw [hrest]; rfl)
    | cons c content =>
      obtain ⟨rfl, rfl⟩ := List.cons.inj hrest
      exact .inr ⟨content, rfl⟩
  · cases mid with
    | nil => exact .inl (by rw [htail]; rfl)
    | cons c mid =>
      obtain ⟨rfl, -⟩ := List.cons.inj htail
      exact absurd (List.all_eq_true.1 hlead '\n' (by simp)) (by decide)

theorem newline_not_mem_indent {cs : List Char} (h : cs.all isIndent = true) : '\n' ∉ cs :=
  fun hmem => absurd (List.all_eq_true.1 h _ hmem) (by decide)

/-- With carriage returns a literal has the same markers and the same value with carriage returns, but
the last of them, which stands before the closing line break, is also in the value. -/
theorem isString_crlf {body : List Char} (h : LineBody body) :
    ∃ value n, (ExprDocument.read (inQuotes body)).IsString (String.ofList value) (some n) ∧
      (ExprDocument.read (inQuotes (crlf body))).IsString
        (String.ofList (crlf value ++ if body.count '\n' = 1 then [] else ['\r'])) (some n) := by
  have hcrlf (cs : List Char) : crlf cs = breaks ['\r'] cs := rfl
  obtain ⟨lead, trail, hlead, htrail, hbody⟩ := h.cases
  have hnone := List.count_eq_zero.2 (newline_not_mem_indent hlead)
  have hnone' := List.count_eq_zero.2 (newline_not_mem_indent htrail)
  have hleads : (lead ++ ['\r']).all isLineBlank = true := by
    rw [List.all_append, lineBlank_of_indent hlead]
    decide
  obtain rfl | ⟨content, rfl⟩ := hbody
  · have hcount : (lead ++ '\n' :: trail).count '\n' = 1 := by simp [hnone, hnone']
    have hreturn : crlf (lead ++ '\n' :: trail) = (lead ++ ['\r']) ++ '\n' :: trail := by
      rw [hcrlf, breaks_append, breaks_newline, breaks_of_not_mem (newline_not_mem_indent hlead),
        breaks_of_not_mem (newline_not_mem_indent htrail), List.append_assoc]
    refine ⟨[], 0, isString_empty (lineBlank_of_indent hlead) (lineBlank_of_indent htrail), ?_⟩
    rw [if_pos hcount, hreturn]
    exact isString_empty hleads (lineBlank_of_indent htrail)
  · have hcount : (lead ++ '\n' :: (content ++ '\n' :: trail)).count '\n' ≠ 1 := by simp [hnone, hnone']
    have hreturn : crlf (lead ++ '\n' :: (content ++ '\n' :: trail)) =
        (lead ++ ['\r']) ++ '\n' :: (breaks ['\r'] content ++ ['\r'] ++ '\n' :: trail) := by
      simp only [hcrlf, breaks_append, breaks_newline, breaks_of_not_mem (newline_not_mem_indent hlead),
        breaks_of_not_mem (newline_not_mem_indent htrail), List.append_assoc, List.singleton_append]
    have hcontent : Verbatim content := by
      refine ⟨fun hmem => h.quote ?_, fun hmem => h.escape ?_, fun hpart => h.fragment (hpart.trans ?_)⟩
      · simp [hmem]
      · simp [hmem]
      · exact ⟨lead ++ ['\n'], '\n' :: trail, by simp⟩
    have hcarriage : ∀ c ∈ ['\r'], c = '\r' := fun c hc => List.mem_singleton.1 hc
    have hreturns := isString_lines hcarriage hleads (lineBlank_of_indent htrail) hcontent
    rw [← hreturn] at hreturns
    refine ⟨_, _, isString_verbatim (lineBlank_of_indent hlead) (lineBlank_of_indent htrail) hcontent, ?_⟩
    rw [if_neg hcount]
    exact hreturns

theorem isString_crlf_marked :
    LineBody "\n  | a $\n| b\n  ".toList ∧
      ∃ value n, (ExprDocument.read (inQuotes "\n  | a $\n| b\n  ".toList)).IsString (String.ofList value) (some n) ∧
        (ExprDocument.read (inQuotes (crlf "\n  | a $\n| b\n  ".toList))).IsString
          (String.ofList (crlf value ++ if "\n  | a $\n| b\n  ".toList.count '\n' = 1 then [] else ['\r'])) (some n) := by
  have hbody : LineBody "\n  | a $\n| b\n  ".toList :=
    ⟨⟨by decide, by decide, by decide +kernel⟩, ⟨[], _, rfl, by decide⟩, ⟨"\n  | a $\n| b".toList, [' ', ' '], rfl, by decide⟩⟩
  exact ⟨hbody, isString_crlf hbody⟩

theorem ExprDocument.IsString.unique {d : ExprDocument} {value value' : String} {markers? markers?' : Option Nat}
    (h : d.IsString value markers?) (h' : d.IsString value' markers?') : value = value' := by
  obtain ⟨segments, layout, span, hexpr, hvalue, -⟩ := h.literal
  obtain ⟨segments', layout', span', hexpr', hvalue', -⟩ := h'.literal
  have hsame := Option.some.inj (hexpr.symm.trans hexpr')
  simp only [Expr.mk.injEq, ExprKind.str.injEq] at hsame
  obtain ⟨⟨rfl, -⟩, -⟩ := hsame
  exact Option.some.inj (hvalue.symm.trans hvalue')

/-- A literal of one line, which has no line break of its own, gets a carriage return. -/
theorem crlf_keeps_return :
    LineBody "\n  | a\n  ".toList ∧ (ExprDocument.read (inQuotes "\n  | a\n  ".toList)).IsString "a" (some 1) ∧
      (ExprDocument.read (inQuotes (crlf "\n  | a\n  ".toList))).IsString "a\r" (some 1) ∧
      ¬(ExprDocument.read (inQuotes (crlf "\n  | a\n  ".toList))).IsString (String.ofList (crlf "a".toList)) (some 1) := by
  have hcontent : Verbatim "  | a".toList := ⟨by decide, by decide, by decide +kernel⟩
  have hvalue : (glyphsFrom true true "  | a".toList).filterMap Glyph.char? = ['a'] := by decide
  have hmarkers : (glyphsFrom true true "  | a".toList).count .marker = 1 := by decide
  have hblank : [' ', ' '].all isLineBlank = true := rfl
  have hcarriage : ∀ c ∈ ['\r'], c = '\r' := fun c hc => List.mem_singleton.1 hc
  have hplain := isString_verbatim (show [].all isLineBlank = true from rfl) hblank hcontent
  have hreturn := isString_lines hcarriage (show ['\r'].all isLineBlank = true from rfl) hblank hcontent
  rw [hvalue, hmarkers] at hplain hreturn
  have hbody : LineBody "\n  | a\n  ".toList :=
    ⟨⟨by decide, by decide, by decide +kernel⟩, ⟨[], _, rfl, rfl⟩, ⟨"\n  | a".toList, [' ', ' '], rfl, rfl⟩⟩
  exact ⟨hbody, hplain, hreturn, fun hvalue => absurd (hvalue.unique hreturn) (by decide)⟩

end JuiceSyntax
