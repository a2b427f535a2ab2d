/-
  The line map of a text, by its bytes. Lines begin at zero and behind each line feed (`lineStarts_breakLines`), so
  the line of an offset is one more than the line feeds before it, and its column counts from the last of them
  (`position_spec`). Line and column so keep the order of offsets, also beyond the end of the text
  (`position_lex_iff`).

  A line is the text from its beginning to one byte before the next, or to the end (`textBetween?_eq`); each with
  what ends it makes up the text (`exists_parts`).
-/
import JuiceSyntax.Proofs.Source.Columns

namespace JuiceSyntax

/-! ## Where lines begin -/

/-- The offsets behind the line feeds of bytes, of which the first is at `start`. -/
def feedEnds (start : Nat) : List Char → List Nat
  | [] => []
  | b :: bs => if b = '\n' then (start + 1) :: feedEnds (start + 1) bs else feedEnds (start + 1) bs

theorem feedEnds_append {start : Nat} {front : List Char} (h : '\n' ∉ front) (bs : List Char) :
    feedEnds start (front ++ bs) = feedEnds (start + front.length) bs := by
  induction front generalizing start with
  | nil => rfl
  | cons b front ih =>
    obtain ⟨hb, hfront⟩ := not_or.1 (mt List.mem_cons.2 h)
    rw [List.cons_append, feedEnds, if_neg (Ne.symm hb), ih hfront, List.length_cons, Nat.add_right_comm, Nat.add_assoc]

theorem mem_feedEnds {start stop : Nat} {bs : List Char} :
    stop ∈ feedEnds start bs ↔ ∃ i, stop = start + i + 1 ∧ bs[i]? = some '\n' := by
  induction bs generalizing start with
  | nil => simp [feedEnds]
  | cons b bs ih =>
    -- The first byte is at index zero, and the others at one more than among themselves.
    have hsplit : (∃ i, stop = start + i + 1 ∧ (b :: bs)[i]? = some '\n') ↔
        (stop = start + 1 ∧ b = '\n') ∨ ∃ i, stop = start + 1 + i + 1 ∧ bs[i]? = some '\n' := by
      constructor
      · rintro ⟨i, hstop, hi⟩
        cases i with
        | zero => exact .inl ⟨hstop, Option.some.inj hi⟩
        | succ i => exact .inr ⟨i, by omega, hi⟩
      · rintro (⟨hstop, hb⟩ | ⟨i, hstop, hi⟩)
        · exact ⟨0, hstop, congrArg some hb⟩
        · exact ⟨i + 1, by omega, hi⟩
    rw [hsplit, ← ih, feedEnds]
    split
    · rename_i hb
      rw [List.mem_cons, and_iff_left hb]
    · rename_i hb
      exact ⟨.inr, fun h => h.resolve_left fun hfeed => hb hfeed.2⟩

/-- The lines of a text begin at its beginning and behind each line feed. -/
theorem lineStarts_breakLines (start : Nat) (text : List Char) :
    lineStarts start (breakLines text) = start :: feedEnds start (bytes text) := by
  induction text generalizing start with
  | nil => rfl
  | cons c cs ih =>
    have hbytes : bytes (c :: cs) = bytesOf c ++ bytes cs := rfl
    obtain ⟨line, rest, hlines⟩ := List.exists_cons_of_ne_nil (breakLines_ne_nil cs)
    have hrest (first : Nat) : lineStarts (first + byteWidth line + 1) rest = feedEnds first (bytes cs) := by
      have hih := ih first
      rw [hlines] at hih
      exact (List.cons.inj hih).2
    rw [breakLines, hlines, hbytes]
    by_cases hc : c = '\n'
    · subst hc
      dsimp only
      rw [if_pos rfl, bytesOf_ascii rfl, ← hlines]
      show start :: lineStarts (start + 0 + 1) (breakLines cs) = _
      rw [ih]
      rfl
    · have hfeed : '\n' ∉ bytesOf c := fun hmem => hc (eq_of_mem_bytesOf rfl hmem)
      dsimp only
      rw [if_neg hc, feedEnds_append hfeed, length_bytesOf, ← hrest, lineStarts, byteWidth_cons, ← Nat.add_assoc start]

theorem length_takeWhile_feedEnds (start offset : Nat) (bs : List Char) :
    ((feedEnds start bs).takeWhile (· ≤ offset)).length = (bs.take (offset - start)).count '\n' := by
  induction bs generalizing start with
  | nil => rw [List.take_nil]; rfl
  | cons b bs ih =>
    obtain hle | hlt := Nat.lt_or_ge start offset
    · rw [show offset - start = offset - (start + 1) + 1 by omega, List.take_succ_cons, List.count_cons, ← ih, feedEnds]
      split
      · rename_i hb
        rw [List.takeWhile_cons, if_pos (decide_eq_true (show start + 1 ≤ offset from hle)), List.length_cons,
          if_pos (beq_iff_eq.2 hb)]
      · rename_i hb
        rw [if_neg (mt beq_iff_eq.1 hb)]
        rfl
    · rw [Nat.sub_eq_zero_of_le hlt, List.take_zero, List.count_nil]
      -- All line feeds from here on end behind the offset.
      have hbeyond : ∀ stop ∈ feedEnds start (b :: bs), offset < stop := by
        intro stop hstop
        obtain ⟨i, hi, -⟩ := mem_feedEnds.1 hstop
        omega
      cases hends : feedEnds start (b :: bs) with
      | nil => rfl
      | cons stop ends =>
        have := hbeyond stop (hends ▸ List.mem_cons_self)
        rw [List.takeWhile_cons_of_neg (by simpa using this)]
        rfl

theorem length_feedEnds (start : Nat) (bs : List Char) : (feedEnds start bs).length = bs.count '\n' := by
  induction bs generalizing start with
  | nil => rfl
  | cons b bs ih =>
    rw [List.count_cons, ← ih (start + 1), feedEnds]
    split
    · rename_i hb
      rw [List.length_cons, if_pos (beq_iff_eq.2 hb)]
    · rename_i hb
      rw [if_neg (mt beq_iff_eq.1 hb)]
      rfl

/-! ## Line and column -/

namespace LineMap

variable (text : String)

theorem starts_ofText : (ofText text).starts = 0 :: feedEnds 0 (bytes text.toList) := lineStarts_breakLines 0 _

/-- The line of the offset is one more than the line feeds before it, and begins at `start`: at the beginning of the
text or behind a line feed, with none between that and the offset. The column counts from there. -/
structure PositionFrom (offset start : Nat) : Prop where
  le : start ≤ offset
  listed : (ofText text).starts[((bytes text.toList).take offset).count '\n']? = some start
  behind : start = 0 ∨ ∃ i, start = i + 1 ∧ (bytes text.toList)[i]? = some '\n'
  within : '\n' ∉ ((bytes text.toList).take offset).drop start
  eq : (ofText text).position offset = (((bytes text.toList).take offset).count '\n' + 1, offset - start + 1)

theorem position_spec (offset : Nat) : ∃ start, PositionFrom text offset start := by
  have hstarts := starts_ofText text
  have hsorted : (0 :: feedEnds 0 (bytes text.toList)).Pairwise (· < ·) := by
    rw [← hstarts]
    exact pairwise_lineStarts 0 _
  obtain ⟨before, last, after, hsplit, hbefore, hlast, hafter⟩ := exists_last_le hsorted (Nat.zero_le offset)
  have hpassed : (ofText text).starts.takeWhile (· ≤ offset) = before ++ [last] := by
    rw [hstarts, hsplit]
    exact takeWhile_le_split hbefore hlast hafter
  have hcount : before.length = ((bytes text.toList).take offset).count '\n' := by
    have hlength := congrArg List.length hpassed
    rw [hstarts, List.takeWhile_cons, if_pos (decide_eq_true (Nat.zero_le offset)), List.length_cons,
      length_takeWhile_feedEnds, List.length_append] at hlength
    exact (Nat.succ.inj hlength).symm
  have hmem : last ∈ 0 :: feedEnds 0 (bytes text.toList) := hsplit ▸ List.mem_append_right _ List.mem_cons_self
  refine ⟨last, hlast, ?_, ?_, ?_, ?_⟩
  · rw [hstarts, hsplit, ← hcount]
    simp
  · obtain rfl | hfeed := List.mem_cons.1 hmem
    · exact .inl rfl
    · obtain ⟨i, hi, hbyte⟩ := mem_feedEnds.1 hfeed
      exact .inr ⟨i, by omega, hbyte⟩
  · -- A line feed between the two would end at the beginning of a later line that is not beyond the offset.
    intro hfeed
    obtain ⟨j, hj⟩ := List.mem_iff_getElem?.1 hfeed
    rw [List.getElem?_drop, List.getElem?_take] at hj
    split at hj
    · rename_i hlt
      have hend : last + j + 1 ∈ before ++ last :: after :=
        hsplit ▸ List.mem_cons_of_mem 0 (mem_feedEnds.2 ⟨last + j, by omega, hj⟩)
      rcases List.mem_append.1 hend with hmem | hmem
      · have := hbefore _ hmem
        omega
      · rcases List.mem_cons.1 hmem with heq | hmem
        · omega
        · have := hafter _ hmem
          omega
    · exact nomatch hj
  · rw [position, hpassed, ← hcount]
    simp

/-- Where the line begins, and the column, give back the offset. -/
theorem start_add_column (offset : Nat) :
    ∃ start, (ofText text).starts[((ofText text).position offset).1 - 1]? = some start ∧
      start + ((ofText text).position offset).2 = offset + 1 := by
  obtain ⟨start, hstart⟩ := position_spec text offset
  refine ⟨start, ?_, ?_⟩
  · rw [hstart.eq]
    exact hstart.listed
  · rw [hstart.eq]
    show start + (offset - start + 1) = offset + 1
    have := hstart.le
    omega

theorem position_line_mono {a b : Nat} (h : a ≤ b) : ((ofText text).position a).1 ≤ ((ofText text).position b).1 := by
  obtain ⟨_, ha⟩ := position_spec text a
  obtain ⟨_, hb⟩ := position_spec text b
  rw [ha.eq, hb.eq]
  exact Nat.succ_le_succ ((List.take_prefix_take_left h).sublist.count_le _)

/-- On one line the columns are in the order of the offsets. -/
theorem position_column_lt {a b : Nat} (hline : ((ofText text).position a).1 = ((ofText text).position b).1) (h : a < b) :
    ((ofText text).position a).2 < ((ofText text).position b).2 := by
  obtain ⟨start, ha, hcolumn⟩ := start_add_column text a
  obtain ⟨start', hb, hcolumn'⟩ := start_add_column text b
  rw [hline, hb] at ha
  have hsame := Option.some.inj ha
  omega

theorem position_lex {a b : Nat} (h : a < b) :
    Prod.Lex (· < ·) (· < ·) ((ofText text).position a) ((ofText text).position b) := by
  rw [Prod.lex_def]
  rcases Nat.lt_or_eq_of_le (position_line_mono text (Nat.le_of_lt h)) with hline | hline
  · exact .inl hline
  · exact .inr ⟨hline, position_column_lt text hline h⟩

/-- Line and column are in the order of the offsets, the line first. -/
theorem position_lex_iff (a b : Nat) :
    Prod.Lex (· < ·) (· < ·) ((ofText text).position a) ((ofText text).position b) ↔ a < b := by
  refine ⟨fun hlex => ?_, position_lex text⟩
  rw [Prod.lex_def] at hlex
  by_contra hle
  rcases Nat.lt_or_eq_of_le (Nat.le_of_not_lt hle) with hlt | heq
  · have hback := position_lex text hlt
    rw [Prod.lex_def] at hback
    omega
  · subst heq
    omega

theorem position_injective : Function.Injective (ofText text).position := by
  intro a b hab
  rcases Nat.lt_trichotomy a b with hlt | heq | hlt
  · have := Prod.lex_def.1 (position_lex text hlt)
    rw [hab] at this
    omega
  · exact heq
  · have := Prod.lex_def.1 (position_lex text hlt)
    rw [hab] at this
    omega

end LineMap

/-! ## The text of a line -/

/-- Lines, each with its line feed. -/
def withFeeds (lines : List (List Char)) : List Char := lines.flatMap (· ++ ['\n'])

/-- The lines up to one, each with its line feed, and that line; behind it a line feed and the others, if there are
any. -/
theorem intercalate_split (front : List (List Char)) (line : List Char) (back : List (List Char)) :
    ['\n'].intercalate (front ++ line :: back) =
      withFeeds front ++ line ++ if back = [] then [] else '\n' :: ['\n'].intercalate back := by
  induction front with
  | nil =>
    cases back with
    | nil => simp [withFeeds]
    | cons next back => simp [withFeeds, List.intercalate_cons_cons]
  | cons first front ih =>
    obtain ⟨next, others, hnext⟩ : ∃ next others, front ++ line :: back = next :: others :=
      List.exists_cons_of_ne_nil (by simp)
    rw [List.cons_append, hnext, List.intercalate_cons_cons, ← hnext, ih]
    simp [withFeeds]

theorem byteWidth_withFeeds_cons (line : List Char) (lines : List (List Char)) :
    byteWidth (withFeeds (line :: lines)) = byteWidth line + 1 + byteWidth (withFeeds lines) := by
  rw [withFeeds, List.flatMap_cons, byteWidth_append, byteWidth_append]
  rfl

theorem getElem?_lineStarts (start : Nat) (front : List (List Char)) (line : List Char) (back : List (List Char)) :
    (lineStarts start (front ++ line :: back))[front.length]? = some (start + byteWidth (withFeeds front)) := by
  induction front generalizing start with
  | nil => rfl
  | cons first front ih =>
    rw [List.cons_append, lineStarts, List.length_cons, List.getElem?_cons_succ, ih, byteWidth_withFeeds_cons]
    exact congrArg some (by omega)

theorem length_lineStarts (start : Nat) (lines : List (List Char)) : (lineStarts start lines).length = lines.length := by
  induction lines generalizing start with
  | nil => rfl
  | cons line rest ih => rw [lineStarts, List.length_cons, List.length_cons, ih]

/-- A line ends one byte before the next one begins, or with the text. -/
theorem stop_lineStarts (front : List (List Char)) (line : List Char) (back : List (List Char)) :
    ((lineStarts 0 (front ++ line :: back))[front.length + 1]?.map (· - 1)).getD
      (byteWidth (['\n'].intercalate (front ++ line :: back))) = byteWidth (withFeeds front) + byteWidth line := by
  cases back with
  | nil =>
    have hend : (lineStarts 0 (front ++ [line]))[front.length + 1]? = none := by
      rw [List.getElem?_eq_none_iff, length_lineStarts, List.length_append, List.length_singleton]
    rw [hend, intercalate_split, if_pos rfl, List.append_nil, byteWidth_append]
    rfl
  | cons next back =>
    have hnext := getElem?_lineStarts 0 (front ++ [line]) next back
    have hwidth : byteWidth (withFeeds (front ++ [line])) = byteWidth (withFeeds front) + (byteWidth line + 1) := by
      rw [withFeeds, List.flatMap_append, byteWidth_append]
      exact congrArg _ (byteWidth_withFeeds_cons line [])
    rw [List.append_assoc, List.length_append, List.length_singleton, hwidth] at hnext
    rw [show front ++ line :: next :: back = front ++ ([line] ++ next :: back) from rfl, hnext]
    show 0 + (byteWidth (withFeeds front) + (byteWidth line + 1)) - 1 = _
    omega

/-- The text of a line by its number, cut out of the text: from where it begins to one byte before the next line, or
to the end of the text. -/
def LineMap.textBetween? (m : LineMap) (text : List Char) : Nat → Option String
  | 0 => none
  | n + 1 => do
    let start ← m.starts[n]?
    let stop := (m.starts[n + 1]?.map (· - 1)).getD (byteWidth text)
    let line ← slice? text ⟨start, stop⟩
    return String.ofList (dropReturn line)

theorem LineMap.textBetween?_eq (text : String) (k : Nat) :
    (ofText text).textBetween? text.toList k = (ofText text).text? k := by
  cases k with
  | zero => rfl
  | succ n =>
    have hstarts : (ofText text).starts = lineStarts 0 (breakLines text.toList) := rfl
    have hlines : (ofText text).lines = breakLines text.toList := rfl
    have htext := join_breakLines text.toList
    rw [textBetween?, text?, hstarts, hlines]
    obtain hlt | hge := Nat.lt_or_ge n (breakLines text.toList).length
    · obtain ⟨front, line, back, hsplit, hfront⟩ : ∃ front line back,
          breakLines text.toList = front ++ line :: back ∧ front.length = n := by
        refine ⟨(breakLines text.toList).take n, (breakLines text.toList)[n], (breakLines text.toList).drop (n + 1), ?_, ?_⟩
        · rw [← List.drop_eq_getElem_cons hlt, List.take_append_drop]
        · rw [List.length_take]
          omega
      have hline : (front ++ line :: back)[front.length]? = some line := by simp
      have hslice : slice? text.toList ⟨byteWidth (withFeeds front), byteWidth (withFeeds front) + byteWidth line⟩ =
          some line := by
        rw [← htext, hsplit, intercalate_split]
        exact slice?_middle _ _ _
      rw [← hfront, hsplit, hline, getElem?_lineStarts, Nat.zero_add]
      show (slice? text.toList ⟨_, _⟩).bind _ = _
      rw [← htext, hsplit, stop_lineStarts, ← hsplit, htext, hslice]
      rfl
    · rw [List.getElem?_eq_none (by rw [length_lineStarts]; exact hge), List.getElem?_eq_none hge]
      rfl

/-! ## Lines and what ends them -/

theorem dropReturn_concat (line : List Char) : dropReturn (line ++ ['\r']) = line := by
  simp [dropReturn]

theorem dropReturn_of_ne {line : List Char} (h : line.getLast? ≠ some '\r') : dropReturn line = line := by
  unfold dropReturn
  split
  · exact absurd ‹_› h
  · rfl

/-- A carriage return is taken off a line; without one nothing is. -/
theorem dropReturn_cases (line : List Char) :
    line = dropReturn line ++ ['\r'] ∨ line = dropReturn line ∧ (dropReturn line).getLast? ≠ some '\r' := by
  by_cases hlast : line.getLast? = some '\r'
  · obtain ⟨front, rfl⟩ := List.getLast?_eq_some_iff.1 hlast
    rw [dropReturn_concat]
    exact .inl rfl
  · rw [dropReturn_of_ne hlast]
    exact .inr ⟨rfl, hlast⟩

theorem feed_notMem_of_mem_breakLines {text line : List Char} (h : line ∈ breakLines text) : '\n' ∉ line := by
  induction text generalizing line with
  | nil =>
    rw [breakLines, List.mem_singleton] at h
    rw [h]
    exact List.not_mem_nil
  | cons c cs ih =>
    obtain ⟨first, rest, hlines⟩ := List.exists_cons_of_ne_nil (breakLines_ne_nil cs)
    rw [hlines] at ih
    obtain ⟨hfirst, hrest⟩ := List.forall_mem_cons.1 fun line hline => @ih line hline
    rw [breakLines, hlines] at h
    dsimp only at h
    split at h
    · rcases List.mem_cons.1 h with rfl | hmem
      · exact List.not_mem_nil
      · exact ih hmem
    · rename_i hc
      rcases List.mem_cons.1 h with rfl | hmem
      · exact fun hmem => (List.mem_cons.1 hmem).elim (fun heq => hc heq.symm) hfirst
      · exact hrest line hmem

theorem breakLines_append {line : List Char} (h : '\n' ∉ line) (rest : List Char) :
    breakLines (line ++ '\n' :: rest) = line :: breakLines rest := by
  induction line with
  | nil =>
    obtain ⟨first, others, hlines⟩ := List.exists_cons_of_ne_nil (breakLines_ne_nil rest)
    simp [breakLines, hlines]
  | cons c cs ih =>
    rw [List.mem_cons, not_or] at h
    rw [List.cons_append, breakLines, ih h.2]
    exact if_neg fun heq => h.1 heq.symm

/-- Lines that are put together, each with its line feed, are the lines again; behind the last feed nothing is
left. -/
theorem breakLines_withFeeds {lines : List (List Char)} (h : ∀ line ∈ lines, '\n' ∉ line) :
    breakLines (withFeeds lines) = lines ++ [[]] := by
  induction lines with
  | nil => rfl
  | cons line rest ih =>
    obtain ⟨hline, hrest⟩ := List.forall_mem_cons.1 h
    rw [withFeeds, List.flatMap_cons, List.append_assoc, List.singleton_append, breakLines_append hline]
    exact congrArg (line :: ·) (ih hrest)

/-- A line without its line break, and the line break. -/
structure LinePart where
  line : List Char
  ending : List Char

def LinePart.text (part : LinePart) : List Char := part.line ++ part.ending

/-- The line break is this one, with the carriage return that stands before it, if there is one. -/
def LinePart.EndsIn (part : LinePart) (feed : List Char) : Prop :=
  part.ending = '\r' :: feed ∨ part.ending = feed ∧ part.line.getLast? ≠ some '\r'

/-- The part of a line before `feed`. -/
def linePart (feed line : List Char) : LinePart := ⟨dropReturn line, line.drop (dropReturn line).length ++ feed⟩

theorem text_linePart (feed line : List Char) : (linePart feed line).text = line ++ feed := by
  have hdropped : dropReturn line ++ line.drop (dropReturn line).length = line := by
    rcases dropReturn_cases line with hline | ⟨hline, -⟩
    · conv => lhs; rw [hline]
      rw [dropReturn_concat, List.drop_left, ← hline]
    · rw [← hline, List.drop_length, List.append_nil]
  rw [LinePart.text, linePart, ← List.append_assoc, hdropped]

theorem endsIn_linePart (feed line : List Char) : (linePart feed line).EndsIn feed := by
  rcases dropReturn_cases line with hline | ⟨hline, hlast⟩
  · refine .inl ?_
    show line.drop (dropReturn line).length ++ feed = _
    conv => lhs; rw [hline]
    rw [dropReturn_concat, List.drop_left]
    rfl
  · refine .inr ⟨?_, hlast⟩
    show line.drop (dropReturn line).length ++ feed = feed
    rw [← hline, List.drop_length, List.nil_append]

theorem feed_notMem_linePart {feed line : List Char} (h : '\n' ∉ line) : '\n' ∉ (linePart feed line).line := by
  intro hmem
  rcases dropReturn_cases line with hline | ⟨hline, -⟩
  · exact h (hline ▸ List.mem_append_left _ hmem)
  · exact h (hline ▸ hmem)

theorem flatMap_linePart (lines : List (List Char)) :
    (lines.map (linePart ['\n'])).flatMap LinePart.text = withFeeds lines := by
  rw [List.flatMap_map, withFeeds]
  exact congrArg (lines.flatMap ·) (funext (text_linePart ['\n']))

/-! ## The line map -/

namespace LineMap

variable (source : String)

/-- The lines of the text, each with what ends it, are the text. All but the last end in a line feed, and they have
no other. -/
structure MadeOf (front : List LinePart) (last : LinePart) : Prop where
  lines : ∀ k, (ofText source).text? (k + 1) = (front ++ [last])[k]?.map fun part => String.ofList part.line
  text : (front ++ [last]).flatMap LinePart.text = source.toList
  ends : ∀ part ∈ front, part.EndsIn ['\n']
  ends_last : last.EndsIn []
  within : ∀ part ∈ front ++ [last], '\n' ∉ part.line

/-- What lines and columns are, by the bytes of the text. -/
structure Exact : Prop where
  position : ∀ offset, ∃ start, PositionFrom source offset start
  /-- A search among the beginnings of lines finds the same. -/
  searched : ∀ offset, (ofText source).position? offset = some ((ofText source).position offset)
  determined : Function.Injective (ofText source).position
  increasing : ∀ a b, Prod.Lex (· < ·) (· < ·) ((ofText source).position a) ((ofText source).position b) ↔ a < b
  count : (ofText source).count = (bytes source.toList).count '\n' + 1
  isSome_text : ∀ k, ((ofText source).text? k).isSome = true ↔ 1 ≤ k ∧ k ≤ (ofText source).count
  /-- A line is cut out of the text up to where the next begins. -/
  cut : ∀ k, (ofText source).textBetween? source.toList k = (ofText source).text? k
  parts : ∃ front last, MadeOf source front last

theorem count_ofText : (ofText source).count = (bytes source.toList).count '\n' + 1 := by
  have hlength : (ofText source).count = (ofText source).starts.length := (length_lineStarts 0 _).symm
  rw [hlength, starts_ofText, List.length_cons, length_feedEnds]

theorem isSome_text?_iff (k : Nat) : ((ofText source).text? k).isSome = true ↔ 1 ≤ k ∧ k ≤ (ofText source).count := by
  cases k with
  | zero => simp [text?]
  | succ n => simp [text?, count, Nat.succ_le_iff]

theorem exists_parts : ∃ front last, MadeOf source front last := by
  obtain ⟨front, last, hlines⟩ :=
    (List.eq_nil_or_concat (breakLines source.toList)).resolve_left (breakLines_ne_nil _)
  have hmap : (front.map (linePart ['\n']) ++ [linePart [] last]).map (·.line) =
      (breakLines source.toList).map dropReturn := by
    rw [hlines, List.concat_eq_append, List.map_append, List.map_append, List.map_map]
    rfl
  refine ⟨front.map (linePart ['\n']), linePart [] last, fun k => ?_, ?_, ?_, endsIn_linePart [] last, ?_⟩
  · have hk := congrArg (fun lines => lines[k]?.map String.ofList) hmap
    simp only [List.getElem?_map, Option.map_map] at hk
    exact hk.symm
  · rw [List.flatMap_append, flatMap_linePart, List.flatMap_singleton, text_linePart, ← join_breakLines source.toList,
      hlines, List.concat_eq_append, intercalate_split, if_pos rfl, List.append_nil, List.append_nil]
  · intro part hpart
    obtain ⟨line, -, rfl⟩ := List.mem_map.1 hpart
    exact endsIn_linePart _ line
  · intro part hpart
    have hmem : part.line ∈ (breakLines source.toList).map dropReturn := hmap ▸ List.mem_map_of_mem hpart
    obtain ⟨line, hline, heq⟩ := List.mem_map.1 hmem
    rw [← heq]
    exact @feed_notMem_linePart [] line (feed_notMem_of_mem_breakLines hline)

end LineMap

/-- Lines and columns are exact for every offset of every text. -/
theorem lineMap_exact (source : String) : LineMap.Exact source where
  position := LineMap.position_spec source
  searched := LineMap.position?_eq source
  determined := LineMap.position_injective source
  increasing := LineMap.position_lex_iff source
  count := LineMap.count_ofText source
  isSome_text := LineMap.isSome_text?_iff source
  cut := LineMap.textBetween?_eq source
  parts := LineMap.exists_parts source

end JuiceSyntax
