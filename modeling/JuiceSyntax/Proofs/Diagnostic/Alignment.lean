/-
  Where the signs of a label stand below the text that it marks. A row of signs has a sign for each byte
  (`aligned_bytes`), and the line above it is written in characters. So the signs stand below the text if and only if
  that, and what is before it on its line, are characters of one byte each (`underline_aligned_iff`).
-/
import JuiceSyntax.Proofs.Diagnostic.Snippet
import JuiceSyntax.Proofs.Source.Usable

namespace JuiceSyntax

/-- The width in bytes is the number of characters if each takes one byte, and only then. -/
theorem byteWidth_eq_length_iff {text : List Char} : byteWidth text = text.length ↔ ∀ c ∈ text, c.utf8Size = 1 := by
  refine ⟨fun h => ?_, byteWidth_ascii⟩
  induction text with
  | nil => exact nofun
  | cons c cs ih =>
    have hpos := c.utf8Size_pos
    have hrest := length_le_byteWidth cs
    rw [byteWidth_cons, List.length_cons] at h
    exact List.forall_mem_cons.2 ⟨by omega, ih (by omega)⟩

/-! ## Where signs stand -/

/-- There are signs from one place on up to another, and nowhere else. -/
def Aligned (signs : List Char) (first stop : Nat) : Prop := ∀ k, signs.getD k ' ' ≠ ' ' ↔ first ≤ k ∧ k < stop

theorem Aligned.unique {signs : List Char} {first stop first' stop' : Nat} (h : Aligned signs first stop)
    (h' : Aligned signs first' stop') (hlt : first < stop) (hlt' : first' < stop') : first = first' ∧ stop = stop' := by
  have hsame (k : Nat) : first ≤ k ∧ k < stop ↔ first' ≤ k ∧ k < stop' := (h k).symm.trans (h' k)
  have hfirst := (hsame first).1 ⟨Nat.le_refl _, hlt⟩
  have hfirst' := (hsame first').2 ⟨Nat.le_refl _, hlt'⟩
  have hlast := (hsame (stop - 1)).1 ⟨by omega, by omega⟩
  have hlast' := (hsame (stop' - 1)).2 ⟨by omega, by omega⟩
  omega

/-- Signs for each byte stand below the characters if these take one byte each, and only then. -/
theorem Aligned.iff_ascii {signs before marked : List Char} (hmarked : marked ≠ [])
    (h : Aligned signs (byteWidth before) (byteWidth before + byteWidth marked)) :
    Aligned signs before.length (before.length + marked.length) ↔ ∀ c ∈ before ++ marked, c.utf8Size = 1 := by
  have hlength : 0 < marked.length := List.length_pos_of_ne_nil hmarked
  have hbefore := length_le_byteWidth before
  have hwidth := length_le_byteWidth marked
  rw [← byteWidth_eq_length_iff, byteWidth_append, List.length_append]
  constructor
  · intro hchars
    exact (h.unique hchars (by omega) (by omega)).2
  · intro hsame
    have hfirst : byteWidth before = before.length := by omega
    rw [hsame, hfirst] at h
    exact h

/-! ## The text that a label marks -/

/-- The label marks these characters of its line, between the others. -/
structure Label.Marks (source : String) (label : Label) (before marked after : List Char) : Prop where
  line : (breakLines source.toList)[label.line (.ofText source) - 1]? = some (before ++ marked ++ after)
  indent : label.indent (.ofText source) = byteWidth before
  slice : slice? source.toList label.span = some marked
  stop : (LineMap.ofText source).position label.span.stop =
    (label.line (.ofText source), byteWidth before + byteWidth marked + 1)

/-- A label with both its ends on one line marks a part of that. -/
theorem exists_marks {source : String} {label : Label} (husable : label.span.Usable source)
    (hline : ((LineMap.ofText source).position label.span.stop).1 = label.line (.ofText source)) :
    ∃ before marked after, label.Marks source before marked after := by
  have hsize := husable.inside
  rw [utf8ByteSize_eq_byteWidth] at hsize
  obtain ⟨front, line, back, hon⟩ := exists_onLine (Nat.le_trans husable.ordered hsize)
  obtain ⟨front', line', back', hon'⟩ := exists_onLine hsize
  obtain ⟨rfl, rfl, rfl⟩ := hon'.same hon hline
  obtain ⟨marked, ⟨passed, rest, hsource, hstart⟩, hstop⟩ := usable_iff.1 husable
  have hle := hon.le
  have hle_stop := hon'.le_stop
  have htext := join_breakLines source.toList
  rw [hon.lines, intercalate_split] at htext
  rw [hstart] at hle
  rw [hstop, hstart] at hle_stop
  have hfront : withFeeds front' <+: passed :=
    prefix_of_byteWidth_le ⟨_, by rw [← List.append_assoc, htext]⟩ ⟨_, by rw [← List.append_assoc, ← hsource]⟩ hle
  obtain ⟨before, rfl⟩ := hfront
  have hmarked : withFeeds front' ++ before ++ marked <+: withFeeds front' ++ line' := by
    refine prefix_of_byteWidth_le ⟨rest, hsource.symm⟩ ⟨_, htext⟩ ?_
    rw [byteWidth_append _ marked, byteWidth_append _ line']
    exact hle_stop
  obtain ⟨after, hafter⟩ := hmarked
  rw [List.append_assoc, List.append_assoc] at hafter
  obtain rfl : line' = before ++ marked ++ after := by
    rw [List.append_assoc]
    exact (List.append_cancel_left hafter).symm
  rw [byteWidth_append] at hstart
  refine ⟨before, marked, after, ?_, ?_, ?_, ?_⟩
  · rw [Label.line, hon.position_eq, hon.lines, Nat.add_sub_cancel, List.getElem?_append_right (Nat.le_refl _),
      Nat.sub_self]
    rfl
  · rw [Label.indent, hon.position_eq]
    dsimp only
    omega
  · have hspan : label.span =
        ⟨byteWidth (withFeeds front' ++ before), byteWidth (withFeeds front' ++ before) + byteWidth marked⟩ := by
      rw [byteWidth_append, ← hstart, ← hstop]
    rw [hsource, hspan]
    exact slice?_middle _ _ _
  · rw [Label.line, hon'.position_eq, hon.position_eq]
    exact congrArg (Prod.mk _) (by omega)

/-! ## A diagnostic with one label -/

namespace Diagnostic

variable {d : Diagnostic} {source : String} {label : Label} {before marked after : List Char}

theorem hasLabelAt_iff {lines : LineMap} (hlabels : d.labels = [label]) (column : Nat) (role : LabelRole) :
    d.HasLabelAt lines (label.line lines) column role ↔ label.role = role ∧ label.Covers lines column := by
  rw [HasLabelAt, hlabels]
  simp

theorem signAt_ne_blank {lines : LineMap} (hlabels : d.labels = [label]) (column : Nat) :
    d.signAt lines (label.line lines) column ≠ ' ' ↔ label.Covers lines column := by
  rw [signAt]
  simp only [hasLabelAt_iff hlabels]
  cases label.role <;> by_cases h : label.Covers lines column <;> simp [h]

/-- What the label covers in bytes is what it marks. -/
theorem covers_iff (h : label.Marks source before marked after) (hmarked : marked ≠ []) (column : Nat) :
    label.Covers (.ofText source) column ↔
      byteWidth before ≤ column ∧ column < byteWidth before + byteWidth marked := by
  have hlength := List.length_pos_of_ne_nil hmarked
  have hwidth := length_le_byteWidth marked
  rw [Label.Covers, h.indent, h.stop, if_pos rfl]
  omega

theorem marked_ne_nil (h : label.Marks source before marked after) (hwide : label.span.start < label.span.stop) :
    marked ≠ [] := by
  rintro rfl
  have hstart : (LineMap.ofText source).position label.span.start =
      (label.line (.ofText source), label.indent (.ofText source) + 1) := rfl
  have hstop := h.stop
  rw [byteWidth_nil, Nat.add_zero, ← h.indent, ← hstart] at hstop
  exact Nat.ne_of_gt hwide (LineMap.position_injective source hstop)

/-- The line of the label is written as it stands in the document, without a carriage return at its end. -/
theorem text_eq {line : ShownLine} (h : label.Marks source before marked after)
    (hnumber : line.number = label.line (.ofText source))
    (htext : (LineMap.ofText source).text? line.number = some line.text) :
    line.text = String.ofList (dropReturn (before ++ marked ++ after)) := by
  have hline := h.line
  rw [← hnumber] at hline
  cases hn : line.number with
  | zero =>
    rw [hn] at htext
    cases htext
  | succ n =>
    have hfound : (LineMap.ofText source).lines[n]? = some (before ++ marked ++ after) := by
      rw [hn] at hline
      exact hline
    rw [hn, LineMap.text?, hfound] at htext
    exact (Option.some.inj htext).symm

end Diagnostic

/-- A diagnostic with one label, on a part of a line, is shown with that line and with signs below each byte of the
part; they stand below its characters if and only if these, and those before them on the line, take one byte each. -/
theorem Diagnostic.underline_aligned_iff (d : Diagnostic) (source : String) (file : Option String) (label : Label)
    (hlabels : d.labels = [label]) (husable : label.span.Usable source) (hwide : label.span.start < label.span.stop)
    (hline : ((LineMap.ofText source).position label.span.stop).1 = label.line (.ofText source)) :
    ∃ before marked after line, label.Marks source before marked after ∧ d.ShownWith source file [line] ∧
      line.text = String.ofList (dropReturn (before ++ marked ++ after)) ∧
      Aligned line.signs (byteWidth before) (byteWidth before + byteWidth marked) ∧
      (Aligned line.signs before.length (before.length + marked.length) ↔ ∀ c ∈ before ++ marked, c.utf8Size = 1) := by
  obtain ⟨before, marked, after, hmarks⟩ := exists_marks husable hline
  have hmarked := marked_ne_nil hmarks hwide
  have hinside : ∀ other ∈ d.labels, other.span.start ≤ other.span.stop ∧ other.span.stop ≤ source.utf8ByteSize := by
    rw [hlabels]
    exact List.forall_mem_singleton.2 ⟨husable.ordered, husable.inside⟩
  have hshown := shownWith_labelledLines file hinside
  have hone : (labelledLines (.ofText source) d.labels).map LabelledLine.shown =
      [(labelledLine (.ofText source) d.labels (label.line (.ofText source))).shown] := by
    rw [labelledLines_eq, hlabels]
    simp [lineNumbers, List.eraseDups_cons]
  rw [hone] at hshown
  have hbytes : Aligned (labelledLine (.ofText source) d.labels (label.line (.ofText source))).shown.signs
      (byteWidth before) (byteWidth before + byteWidth marked) := fun column => by
    rw [hshown.signs _ List.mem_cons_self]
    exact (signAt_ne_blank hlabels column).trans (covers_iff hmarks hmarked column)
  refine ⟨before, marked, after, _, hmarks, hshown, ?_, hbytes, hbytes.iff_ascii hmarked⟩
  exact text_eq hmarks rfl (hshown.texts _ List.mem_cons_self)

/-- A bracket after characters of one byte. -/
theorem Diagnostic.underline_aligned_iff_bracket :
    let source := "y := )"
    let label : Label := ⟨⟨5, 6⟩, .primary, none⟩
    let d : Diagnostic := ⟨.error, none, "m", [label], [], none, [], true⟩
    d.labels = [label] ∧ label.span.Usable source ∧ label.span.start < label.span.stop ∧
      ((LineMap.ofText source).position label.span.stop).1 = label.line (.ofText source) ∧
      ∃ before marked after line, label.Marks source before marked after ∧ d.ShownWith source none [line] ∧
        line.text = String.ofList (dropReturn (before ++ marked ++ after)) ∧
        Aligned line.signs (byteWidth before) (byteWidth before + byteWidth marked) ∧
        (Aligned line.signs before.length (before.length + marked.length) ↔ ∀ c ∈ before ++ marked, c.utf8Size = 1) := by
  intro source label d
  have husable : label.span.Usable source :=
    usable_iff.2 ⟨[')'], ⟨['y', ' ', ':', '=', ' '], [], by decide, by decide⟩, by decide⟩
  have hline : ((LineMap.ofText source).position label.span.stop).1 = label.line (.ofText source) := by decide
  exact ⟨rfl, husable, by decide, hline, d.underline_aligned_iff source none label rfl husable (by decide) hline⟩

/-- Behind a character of two bytes the caret is one place to the right of the bracket that it is about. -/
theorem Diagnostic.underline_misses :
    let source := "é )"
    let label : Label := ⟨⟨3, 4⟩, .primary, none⟩
    let d : Diagnostic := ⟨.error, none, "m", [label], [], none, [], true⟩
    label.span.Usable source ∧ label.span.start < label.span.stop ∧
      ((LineMap.ofText source).position label.span.stop).1 = label.line (.ofText source) ∧
      label.Marks source ['é', ' '] [')'] [] ∧
      (plainStyle none).format (.ofText source) d = "error: m\n  --> <source>:1:4\n    |\n  1 | é )\n    |    ^\n" ∧
      (labelledLines (.ofText source) d.labels).map LabelledLine.shown = [⟨1, "é )", [' ', ' ', ' ', '^'], []⟩] ∧
      ¬Aligned [' ', ' ', ' ', '^'] 2 3 := by
  intro source label d
  have husable : label.span.Usable source :=
    usable_iff.2 ⟨[')'], ⟨['é', ' '], [], by decide, by decide⟩, by decide⟩
  refine ⟨husable, by decide, by decide, ⟨by decide, by decide, by decide, by decide⟩, ?_, ?_, ?_⟩
  · decide +kernel
  · decide +kernel
  · intro haligned
    exact (haligned 2).2 ⟨by decide, by decide⟩ rfl

end JuiceSyntax
