/-
  The line that an offset stands on, as a split of the lines of a text. The end of a line is on it, so every
  offset that is not beyond the text has its line (`exists_onLine`). Line and column count the lines before it
  and the bytes of the line before the offset (`OnLine.position_eq`).
-/
import JuiceSyntax.Proofs.Source.LineMap

namespace JuiceSyntax

/-- The offset stands on this line, behind the lines of `front`. -/
structure OnLine (text : List Char) (offset : Nat) (front : List (List Char)) (line : List Char)
    (back : List (List Char)) : Prop where
  lines : breakLines text = front ++ line :: back
  le : byteWidth (withFeeds front) ≤ offset
  le_stop : offset ≤ byteWidth (withFeeds front) + byteWidth line

theorem exists_line_of_le {first : List Char} {rest : List (List Char)} {offset : Nat}
    (h : offset ≤ byteWidth (['\n'].intercalate (first :: rest))) :
    ∃ front line back, first :: rest = front ++ line :: back ∧ byteWidth (withFeeds front) ≤ offset ∧
      offset ≤ byteWidth (withFeeds front) + byteWidth line := by
  induction rest generalizing first offset with
  | nil =>
    rw [List.intercalate_singleton] at h
    exact ⟨[], first, [], rfl, Nat.zero_le _, by simpa [withFeeds] using h⟩
  | cons second rest ih =>
    obtain hfirst | hbeyond := Nat.lt_or_ge (byteWidth first) offset
    · rw [List.intercalate_cons_cons, byteWidth_append, byteWidth_append] at h
      have hrest : offset - (byteWidth first + 1) ≤ byteWidth (['\n'].intercalate (second :: rest)) := by
        have hfeed : byteWidth ['\n'] = 1 := rfl
        omega
      obtain ⟨front, line, back, hsplit, hle, hstop⟩ := ih hrest
      refine ⟨first :: front, line, back, by rw [hsplit]; rfl, ?_, ?_⟩
      · rw [byteWidth_withFeeds_cons]
        omega
      · rw [byteWidth_withFeeds_cons]
        omega
    · exact ⟨[], first, second :: rest, rfl, Nat.zero_le _, by simpa [withFeeds] using hbeyond⟩

/-- Every offset that is not beyond the text stands on a line. -/
theorem exists_onLine {text : List Char} {offset : Nat} (h : offset ≤ byteWidth text) :
    ∃ front line back, OnLine text offset front line back := by
  obtain ⟨first, rest, hlines⟩ := List.exists_cons_of_ne_nil (breakLines_ne_nil text)
  rw [← join_breakLines text, hlines] at h
  obtain ⟨front, line, back, hsplit, hle, hstop⟩ := exists_line_of_le h
  exact ⟨front, line, back, hlines.trans hsplit, hle, hstop⟩

theorem lineStarts_append (start : Nat) (front lines : List (List Char)) :
    lineStarts start (front ++ lines) =
      lineStarts start front ++ lineStarts (start + byteWidth (withFeeds front)) lines := by
  induction front generalizing start with
  | nil => rfl
  | cons first front ih =>
    rw [List.cons_append, lineStarts, lineStarts, ih, byteWidth_withFeeds_cons, List.cons_append, ← Nat.add_assoc,
      ← Nat.add_assoc]

/-- A line is at most a carriage return wider than its text. -/
theorem byteWidth_le_dropReturn (line : List Char) : byteWidth line ≤ byteWidth (dropReturn line) + 1 := by
  obtain hline | ⟨hline, -⟩ := dropReturn_cases line
  · have hwidth := congrArg byteWidth hline
    rw [byteWidth_append] at hwidth
    exact Nat.le_of_eq hwidth
  · exact Nat.le_succ_of_le (Nat.le_of_eq (congrArg byteWidth hline))

namespace OnLine

variable {source : String} {offset offset' : Nat} {front front' : List (List Char)} {line line' : List Char}
  {back back' : List (List Char)}

theorem position_eq (h : OnLine source.toList offset front line back) :
    (LineMap.ofText source).position offset = (front.length + 1, offset - byteWidth (withFeeds front) + 1) := by
  have hstarts : (LineMap.ofText source).starts =
      lineStarts 0 front ++ byteWidth (withFeeds front) ::
        lineStarts (byteWidth (withFeeds front) + byteWidth line + 1) back := by
    show lineStarts 0 (breakLines source.toList) = _
    rw [h.lines, lineStarts_append, Nat.zero_add, lineStarts]
  have hsorted := pairwise_lineStarts 0 (breakLines source.toList)
  rw [show lineStarts 0 (breakLines source.toList) = _ from hstarts] at hsorted
  have hbefore : ∀ earlier ∈ lineStarts 0 front, earlier < byteWidth (withFeeds front) := fun earlier hmem =>
    (List.pairwise_append.1 hsorted).2.2 earlier hmem _ List.mem_cons_self
  have hafter : ∀ later ∈ lineStarts (byteWidth (withFeeds front) + byteWidth line + 1) back, offset < later :=
    fun later hmem => Nat.lt_of_le_of_lt h.le_stop (le_of_mem_lineStarts hmem)
  rw [LineMap.position, hstarts, takeWhile_le_split hbefore h.le hafter, List.length_append, length_lineStarts]
  simp

theorem text?_eq (h : OnLine source.toList offset front line back) :
    (LineMap.ofText source).text? (front.length + 1) = some (String.ofList (dropReturn line)) := by
  show ((breakLines source.toList)[front.length]?).map _ = _
  rw [h.lines, List.getElem?_append_right (Nat.le_refl _), Nat.sub_self]
  rfl

/-- Offsets with one line number stand on one line. -/
theorem same (h : OnLine source.toList offset front line back) (h' : OnLine source.toList offset' front' line' back')
    (hnumber : ((LineMap.ofText source).position offset).1 = ((LineMap.ofText source).position offset').1) :
    front = front' ∧ line = line' ∧ back = back' := by
  rw [h.position_eq, h'.position_eq] at hnumber
  obtain ⟨hfront, hrest⟩ := List.append_inj (h.lines.symm.trans h'.lines) (Nat.succ.inj hnumber)
  obtain ⟨hline, hback⟩ := List.cons.inj hrest
  exact ⟨hfront, hline, hback⟩

end OnLine

end JuiceSyntax
