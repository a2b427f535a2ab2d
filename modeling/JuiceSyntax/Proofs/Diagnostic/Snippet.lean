/-
  What a snippet shows, with colours off. A label whose ends are in the document starts at most one column behind the
  text of its line, where the row of signs still has a place for it (`fits_of_inside`); so no sign is cut off, no row
  of signs is empty, and each line is followed by its signs and its messages (`rows_eq`).

  The lines are those that labels start on, in their order and each once (`rising_labelledLines`,
  `mem_labelledLines`). Their labels are the labels of the diagnostic, grouped, so no message is left out or written
  twice (`messages_perm`).
-/
import JuiceSyntax.Diagnostic.Snippet
import JuiceSyntax.Proofs.Sorting
import JuiceSyntax.Proofs.Source.OnLine
import JuiceSyntax.Proofs.Token.Tiling
import Mathlib.Data.List.Perm.Basic

namespace JuiceSyntax

/-! ## Labels by line and column -/

namespace Label

variable (lines : LineMap) (label : Label)

/-- The number of the line that the label starts on. -/
def line : Nat := (lines.position label.span.start).1

/-- How many bytes of that line are before the label. -/
def indent : Nat := (lines.position label.span.start).2 - 1

/-- The label covers a column of the line that it starts on, counted from zero: the one where it starts, and the
others up to where it ends, or to the end of the line if it ends on another. -/
def Covers (column : Nat) : Prop :=
  column = label.indent lines ∨
    label.indent lines ≤ column ∧
      if (lines.position label.span.stop).1 = label.line lines then column + 1 < (lines.position label.span.stop).2
      else column < ((lines.text? (label.line lines)).getD "").utf8ByteSize

instance (column : Nat) : Decidable (label.Covers lines column) := instDecidableOr

/-- The message of the label, if it has one, and where it is written. -/
def note? : Option (Nat × String) := label.message.map fun message => (label.indent lines, message)

end Label

namespace Diagnostic

variable (d : Diagnostic) (lines : LineMap) (number column : Nat)

/-- A label for this that starts on the line covers the column. -/
def HasLabelAt (role : LabelRole) : Prop :=
  ∃ label ∈ d.labels, label.role = role ∧ label.line lines = number ∧ label.Covers lines column

instance (role : LabelRole) : Decidable (d.HasLabelAt lines number column role) := List.decidableBEx _ _

/-- The sign that belongs under a column of a line. -/
def signAt : Char :=
  if d.HasLabelAt lines number column .primary then '^'
  else if d.HasLabelAt lines number column .secondary then '-'
  else ' '

end Diagnostic

/-! ## Lines as they are shown -/

/-- A source line with the signs under it, and the messages with their columns. -/
structure ShownLine where
  number : Nat
  text : String
  signs : List Char
  notes : List (Nat × String)
deriving DecidableEq, Repr

namespace ShownLine

/-- What stands before the signs and the messages. -/
def margin (gutter : Nat) : String := spaces (gutter + 1) ++ " | "

/-- The signs with the message behind them; several messages are on rows of their own below where their labels
start. -/
def signRows (gutter : Nat) (line : ShownLine) : String :=
  margin gutter ++ String.ofList line.signs ++
    match line.notes with
    | [(_, message)] => " " ++ message ++ "\n"
    | notes =>
      "\n" ++ String.join (notes.map fun (column, message) => margin gutter ++ spaces column ++ message ++ "\n")

/-- Each line with what stands below it, and dots where lines between them are left out. -/
def write (gutter : Nat) : Option Nat → List ShownLine → String
  | _, [] => ""
  | previous, line :: rest =>
    (if previous.any fun n => n + 1 < line.number then spaces gutter ++ " ...\n" else "") ++
      (padLeft (gutter + 1) (toString line.number) ++ " | " ++ line.text ++ "\n") ++ line.signRows gutter ++
      write gutter (some line.number) rest

/-- The width of the numbers. -/
def gutter (shown : List ShownLine) : Nat := max ((shown.getLast?.map fun last => (toString last.number).length).getD 0) 2

end ShownLine

/-- The row that names the place, and an empty one; nothing if there are no labels. -/
def Diagnostic.place (d : Diagnostic) (lines : LineMap) (file : Option String) (gutter : Nat) : String :=
  match d.primary? with
  | some span =>
    let (line, column) := lines.position span.start
    "  --> " ++ (file.getD "<source>" ++ s!":{line}:{column}\n") ++ spaces (gutter + 1) ++ " |\n"
  | none => ""

def LabelledLine.shown (line : LabelledLine) : ShownLine :=
  ⟨line.number, line.text, line.underline, line.messages.map fun (column, _, message) => (column, message)⟩

/-- The style without colours. -/
def plainStyle (file : Option String) : SnippetStyle := ⟨false, file⟩

/-! ### Their rows -/

theorem flatten_signRuns (signs : List Char) : (signRuns signs).flatten = signs := by
  induction signs with
  | nil => rfl
  | cons c cs ih =>
    unfold signRuns
    split
    · rename_i hruns
      rw [hruns] at ih
      rw [← ih]
      rfl
    · rename_i hruns
      rw [hruns] at ih
      rw [← ih]
      rfl
    · rename_i hruns
      rw [hruns] at ih
      rw [← ih]
      split <;> rfl

section

variable (file : Option String) (gutter : Nat) {line : LabelledLine}

theorem paintSigns_plain (signs : List Char) : (plainStyle file).paintSigns signs = String.ofList signs := by
  have hruns : (plainStyle file).paintSigns signs = String.join ((signRuns signs).map String.ofList) := by
    refine congrArg String.join (List.map_congr_left fun run _ => ?_)
    split <;> rfl
  rw [hruns, ← String.toList_inj, String.toList_join, List.flatMap_map, String.toList_ofList]
  simp only [String.toList_ofList]
  exact List.flatMap_id'.trans (flatten_signRuns signs)

theorem paintMessage_plain (role : LabelRole) (message : String) :
    (plainStyle file).paintMessage role message = message := by
  cases role <;> rfl

theorem margin_plain : spaces (gutter + 1) ++ " " ++ (plainStyle file).bar ++ " " = ShownLine.margin gutter := by
  rw [String.append_assoc, String.append_assoc]
  rfl

/-- With a sign in it, the row of signs is written, and the messages after it. -/
theorem rows_eq (h : line.underline ≠ []) : (plainStyle file).rows gutter line = line.shown.signRows gutter := by
  have hsigns : ¬line.underline.isEmpty = true := by simpa using h
  unfold SnippetStyle.rows ShownLine.signRows LabelledLine.shown
  dsimp only
  rw [if_neg hsigns, margin_plain, paintSigns_plain]
  rcases line.messages with _ | ⟨⟨column, role, message⟩, _ | ⟨second, rest⟩⟩
  · simp [String.append_assoc]
  · simp [paintMessage_plain, String.append_assoc]
  · simp [paintMessage_plain, String.append_assoc, Function.comp_def]

theorem sourceRows_eq (previous : Option Nat) {labelled : List LabelledLine}
    (h : ∀ line ∈ labelled, line.underline ≠ []) :
    (plainStyle file).sourceRows gutter previous labelled =
      ShownLine.write gutter previous (labelled.map LabelledLine.shown) := by
  induction labelled generalizing previous with
  | nil => rfl
  | cons line rest ih =>
    obtain ⟨hline, hrest⟩ := List.forall_mem_cons.1 h
    unfold SnippetStyle.sourceRows
    dsimp only
    rw [rows_eq file gutter hline, ih (some line.number) hrest, List.map_cons, ShownLine.write]
    cases previous with
    | none => simp [SnippetStyle.sourceRow, SnippetStyle.bar, plainStyle, LabelledLine.shown, String.append_assoc]
    | some n =>
      by_cases hgap : n + 1 < line.number <;>
        simp [hgap, SnippetStyle.sourceRow, SnippetStyle.bar, plainStyle, LabelledLine.shown, String.append_assoc]

end

/-! ## The lines of a diagnostic -/

/-- The numbers of the lines that labels start on. -/
def lineNumbers (lines : LineMap) (labels : List Label) : List Nat :=
  ((labels.map (Label.line lines)).eraseDups).mergeSort fun a b => decide (a ≤ b)

/-- A line with the labels that start on it. -/
def labelledLine (lines : LineMap) (labels : List Label) (number : Nat) : LabelledLine :=
  ⟨number, (lines.text? number).getD "", (labels.filter (·.line lines == number)).map (LineLabel.ofLabel lines)⟩

section

variable (lines : LineMap) (labels : List Label)

theorem labelledLines_eq : labelledLines lines labels = (lineNumbers lines labels).map (labelledLine lines labels) := rfl

theorem mem_lineNumbers {number : Nat} :
    number ∈ lineNumbers lines labels ↔ ∃ label ∈ labels, label.line lines = number := by
  rw [lineNumbers, (List.mergeSort_perm _ _).mem_iff, List.mem_eraseDups, List.mem_map]

theorem rising_lineNumbers : (lineNumbers lines labels).Pairwise (· < ·) := by
  have hsorted : (lineNumbers lines labels).Pairwise (· ≤ ·) := pairwise_mergeSort_key (fun number => number) _
  have hdistinct : (lineNumbers lines labels).Nodup := (List.mergeSort_perm _ _).nodup_iff.2 (nodup_eraseDups _)
  exact (hsorted.and hdistinct).imp fun ⟨hle, hne⟩ => Nat.lt_of_le_of_ne hle hne

end

theorem format_eq (file : Option String) (lines : LineMap) (d : Diagnostic)
    (h : ∀ line ∈ labelledLines lines d.labels, line.underline ≠ []) :
    let shown := (labelledLines lines d.labels).map LabelledLine.shown
    (plainStyle file).format lines d =
      (plainStyle file).header d ++ d.place lines file (ShownLine.gutter shown) ++
        ShownLine.write (ShownLine.gutter shown) none shown ++ (plainStyle file).footer d := by
  cases hlabels : d.labels with
  | nil =>
    have hprimary : d.primary? = none := by rw [Diagnostic.primary?, hlabels]; rfl
    have hnone : labelledLines lines [] = [] := by simp [labelledLines]
    unfold SnippetStyle.format Diagnostic.place
    rw [hlabels, hnone, hprimary]
    simp [ShownLine.write]
  | cons label rest =>
    rw [hlabels] at h
    obtain ⟨span, hprimary⟩ : ∃ span, d.primary? = some span := by
      rw [Diagnostic.primary?, hlabels]
      cases (label :: rest).find? (·.role == .primary) <;> exact ⟨_, rfl⟩
    have hnonempty : labelledLines lines (label :: rest) ≠ [] := by
      have hmem := (mem_lineNumbers lines (label :: rest)).2 ⟨label, List.mem_cons_self, rfl⟩
      rw [labelledLines_eq]
      exact List.ne_nil_of_mem (List.mem_map_of_mem hmem)
    obtain ⟨last, hlast⟩ : ∃ last, (labelledLines lines (label :: rest)).getLast? = some last :=
      ⟨_, List.getLast?_eq_some_getLast hnonempty⟩
    have hgutter : ShownLine.gutter ((labelledLines lines (label :: rest)).map LabelledLine.shown) =
        max (toString last.number).length 2 := by
      rw [ShownLine.gutter, List.getLast?_map, hlast]
      rfl
    unfold SnippetStyle.format Diagnostic.place
    rw [hlabels, hprimary]
    dsimp only
    rw [hlast]
    dsimp only
    rw [hgutter, sourceRows_eq file _ none h]
    simp [SnippetStyle.bar, plainStyle, String.append_assoc]

/-! ## Signs -/

theorem getD_append_blanks (signs : List Char) {blanks : List Char} (h : ∀ c ∈ blanks, c = ' ') (column : Nat) :
    (signs ++ blanks).getD column ' ' = signs.getD column ' ' := by
  rw [List.getD_eq_getElem?_getD, List.getD_eq_getElem?_getD]
  obtain hlt | hge := Nat.lt_or_ge column signs.length
  · rw [List.getElem?_append_left hlt]
  · rw [List.getElem?_append_right hge, List.getElem?_eq_none hge]
    cases hc : blanks[column - signs.length]? with
    | none => rfl
    | some c => exact h c (List.mem_of_getElem? hc)

/-- Blanks taken off the end are blanks still. -/
theorem getD_dropBlanks (signs : List Char) (column : Nat) :
    (signs.reverse.dropWhile (· == ' ')).reverse.getD column ' ' = signs.getD column ' ' := by
  have hsplit : (signs.reverse.dropWhile (· == ' ')).reverse ++ (signs.reverse.takeWhile (· == ' ')).reverse = signs := by
    rw [← List.reverse_append, List.takeWhile_append_dropWhile, List.reverse_reverse]
  have hblank : ∀ c ∈ (signs.reverse.takeWhile (· == ' ')).reverse, c = ' ' := fun c hc => by
    simpa using List.mem_takeWhile_imp (List.mem_reverse.1 hc)
  have hsame := getD_append_blanks (signs.reverse.dropWhile (· == ' ')).reverse hblank column
  rw [hsplit] at hsame
  exact hsame.symm

namespace LabelledLine

variable {line : LabelledLine}

/-- Each label has a column, and none beyond the row of signs. -/
def Fits (line : LabelledLine) : Prop := ∀ a ∈ line.labels, a.start < a.stop ∧ a.stop ≤ line.text.utf8ByteSize + 2

theorem sign_blank {column : Nat} (h : ∀ a ∈ line.labels, a.covers column = false) : line.sign column = ' ' := by
  have hprimary : ¬(line.labels.any fun a => a.isPrimary && a.covers column) = true := by simp +contextual [h]
  have hany : ¬(line.labels.any fun a => a.covers column) = true := by simp +contextual [h]
  rw [sign, if_neg hprimary, if_neg hany]

theorem sign_ne_blank {column : Nat} {a : LineLabel} (ha : a ∈ line.labels) (h : a.covers column = true) :
    line.sign column ≠ ' ' := by
  have hany : (line.labels.any fun a => a.covers column) = true := List.any_eq_true.2 ⟨a, ha, h⟩
  rw [sign, if_pos hany]
  split <;> decide

/-- No sign is cut off. -/
theorem getD_underline (h : line.Fits) (column : Nat) : line.underline.getD column ' ' = line.sign column := by
  rw [underline, getD_dropBlanks, List.getD_eq_getElem?_getD, List.getElem?_map]
  obtain hlt | hge := Nat.lt_or_ge column (line.text.utf8ByteSize + 2)
  · rw [List.getElem?_range hlt]
    rfl
  · rw [List.getElem?_eq_none (by rw [List.length_range]; exact hge)]
    refine (sign_blank fun a ha => ?_).symm
    obtain ⟨-, hstop⟩ := h a ha
    exact decide_eq_false (by omega)

theorem underline_ne_nil (h : line.Fits) (hlabels : line.labels ≠ []) : line.underline ≠ [] := by
  obtain ⟨a, rest, heq⟩ := List.exists_cons_of_ne_nil hlabels
  have ha : a ∈ line.labels := heq ▸ List.mem_cons_self
  obtain ⟨hwide, -⟩ := h a ha
  have hsign := sign_ne_blank ha (decide_eq_true (show a.start ≤ a.start ∧ a.start < a.stop from ⟨Nat.le_refl _, hwide⟩))
  rw [← getD_underline h] at hsign
  intro hnil
  rw [hnil] at hsign
  exact hsign rfl

/-- The messages are those of the labels. -/
theorem notes_perm (line : LabelledLine) :
    line.shown.notes.Perm (line.labels.filterMap fun a => a.message.map fun message => (a.start, message)) := by
  have hmessages := (List.mergeSort_perm
    ((line.labels.mergeSort LineLabel.comesBefore).filterMap fun a =>
      a.message.map fun message => (a.start, a.role, message)) fun a b => decide (b.1 ≤ a.1)).map
        fun (column, _, message) => (column, message)
  refine hmessages.trans ?_
  rw [List.map_filterMap]
  simp only [Option.map_map]
  exact (List.mergeSort_perm _ _).filterMap _

end LabelledLine

/-! ## Labels on their lines -/

section

variable (lines : LineMap) (label : Label)

theorem covers_ofLabel (column : Nat) :
    (LineLabel.ofLabel lines label).covers column = decide (label.Covers lines column) := by
  have hstart : (LineLabel.ofLabel lines label).start = label.indent lines := rfl
  have hstop : (LineLabel.ofLabel lines label).stop =
      max (if (lines.position label.span.stop).1 == label.line lines then (lines.position label.span.stop).2 - 1
        else ((lines.text? (label.line lines)).getD "").utf8ByteSize) (label.indent lines + 1) := rfl
  rw [LineLabel.covers, hstart, hstop]
  refine decide_eq_decide.2 ?_
  unfold Label.Covers
  by_cases hline : (lines.position label.span.stop).1 = label.line lines
  · rw [if_pos (beq_iff_eq.2 hline), if_pos hline]
    omega
  · rw [if_neg (mt beq_iff_eq.1 hline), if_neg hline]
    omega

end

section

variable (lines : LineMap) (d : Diagnostic) (number : Nat)

/-- The labels on a line that are for this, and cover a column. -/
theorem any_labels (role : LabelRole) (column : Nat) :
    ((labelledLine lines d.labels number).labels.any fun a => a.role == role && a.covers column) = true ↔
      d.HasLabelAt lines number column role := by
  rw [labelledLine, List.any_map, List.any_filter, List.any_eq_true]
  unfold Diagnostic.HasLabelAt
  refine exists_congr fun label => and_congr_right fun _ => ?_
  have hrole : (LineLabel.ofLabel lines label).role = label.role := rfl
  rw [Function.comp_apply, hrole, covers_ofLabel]
  simp only [Bool.and_eq_true, beq_iff_eq, decide_eq_true_eq]
  constructor
  · rintro ⟨hline, hrole, hcovers⟩
    exact ⟨hrole, hline, hcovers⟩
  · rintro ⟨hrole, hline, hcovers⟩
    exact ⟨hline, hrole, hcovers⟩

theorem sign_eq (column : Nat) : (labelledLine lines d.labels number).sign column = d.signAt lines number column := by
  have hprimary : ((labelledLine lines d.labels number).labels.any fun a => a.isPrimary && a.covers column) = true ↔
      d.HasLabelAt lines number column .primary := any_labels lines d number .primary column
  have hsecondary := any_labels lines d number .secondary column
  have hany : ((labelledLine lines d.labels number).labels.any fun a => a.covers column) = true ↔
      d.HasLabelAt lines number column .primary ∨ d.HasLabelAt lines number column .secondary := by
    rw [← hprimary, ← hsecondary, List.any_eq_true, List.any_eq_true, List.any_eq_true]
    constructor
    · rintro ⟨a, ha, hcovers⟩
      cases hrole : a.role with
      | primary => exact .inl ⟨a, ha, by simp [LineLabel.isPrimary, hrole, hcovers]⟩
      | secondary => exact .inr ⟨a, ha, by simp [hrole, hcovers]⟩
    · rintro (⟨a, ha, hsign⟩ | ⟨a, ha, hsign⟩)
      · exact ⟨a, ha, (Bool.and_eq_true_iff.1 hsign).2⟩
      · exact ⟨a, ha, (Bool.and_eq_true_iff.1 hsign).2⟩
  unfold LabelledLine.sign Diagnostic.signAt
  by_cases hcaret : d.HasLabelAt lines number column .primary
  · rw [if_pos (hprimary.2 hcaret), if_pos hcaret]
  · rw [if_neg (mt hprimary.1 hcaret), if_neg hcaret]
    exact if_congr (hany.trans (or_iff_right hcaret)) rfl rfl

theorem labelledLine_notes_perm :
    (labelledLine lines d.labels number).shown.notes.Perm
      ((d.labels.filter (·.line lines == number)).filterMap (Label.note? lines)) := by
  have hperm := (labelledLine lines d.labels number).notes_perm
  rw [labelledLine, List.filterMap_map] at hperm
  exact hperm

end

/-- A label whose ends are in the document has a place in the row of signs. -/
theorem fits_of_inside {source : String} {label : Label} (hstart : label.span.start ≤ source.utf8ByteSize)
    (hstop : label.span.stop ≤ source.utf8ByteSize) :
    (LineLabel.ofLabel (.ofText source) label).start < (LineLabel.ofLabel (.ofText source) label).stop ∧
      (LineLabel.ofLabel (.ofText source) label).stop ≤
        (((LineMap.ofText source).text? (label.line (.ofText source))).getD "").utf8ByteSize + 2 := by
  rw [utf8ByteSize_eq_byteWidth] at hstart hstop
  obtain ⟨front, line, back, hon⟩ := exists_onLine hstart
  obtain ⟨front', line', back', hon'⟩ := exists_onLine hstop
  have hwidth := byteWidth_le_dropReturn line
  have hle := hon.le_stop
  have htext : (((LineMap.ofText source).text? (label.line (.ofText source))).getD "").utf8ByteSize =
      byteWidth (dropReturn line) := by
    rw [Label.line, hon.position_eq, hon.text?_eq, Option.getD_some, utf8ByteSize_eq_byteWidth, String.toList_ofList]
  have hstartsAt : (LineLabel.ofLabel (.ofText source) label).start = label.span.start - byteWidth (withFeeds front) := by
    show ((LineMap.ofText source).position label.span.start).2 - 1 = _
    rw [hon.position_eq]
    rfl
  have hstopsAt : (LineLabel.ofLabel (.ofText source) label).stop =
      max (if ((LineMap.ofText source).position label.span.stop).1 == label.line (.ofText source) then
          ((LineMap.ofText source).position label.span.stop).2 - 1
        else byteWidth (dropReturn line)) (label.span.start - byteWidth (withFeeds front) + 1) := by
    rw [← htext, ← hstartsAt]
    rfl
  rw [htext, hstartsAt, hstopsAt]
  by_cases hsame : ((LineMap.ofText source).position label.span.stop).1 = label.line (.ofText source)
  · obtain ⟨rfl, rfl, rfl⟩ := hon'.same hon hsame
    have hle' := hon'.le_stop
    rw [if_pos (beq_iff_eq.2 hsame), hon'.position_eq]
    dsimp only
    omega
  · rw [if_neg (mt beq_iff_eq.1 hsame)]
    omega

/-! ## What is shown -/

namespace Diagnostic

/-- The diagnostic is shown with these lines, and with all that its labels say. -/
structure ShownWith (d : Diagnostic) (source : String) (file : Option String) (shown : List ShownLine) : Prop where
  /-- They are written one below the other, between the message with its place and the notes. -/
  format : (plainStyle file).format (.ofText source) d =
    (plainStyle file).header d ++ d.place (.ofText source) file (ShownLine.gutter shown) ++
      ShownLine.write (ShownLine.gutter shown) none shown ++ (plainStyle file).footer d
  rising : shown.Pairwise fun a b => a.number < b.number
  starts : ∀ number, (∃ line ∈ shown, line.number = number) ↔ ∃ label ∈ d.labels, label.line (.ofText source) = number
  texts : ∀ line ∈ shown, (LineMap.ofText source).text? line.number = some line.text
  signs : ∀ line ∈ shown, ∀ column, line.signs.getD column ' ' = d.signAt (.ofText source) line.number column
  notes : ∀ line ∈ shown, line.notes.Perm
    ((d.labels.filter (·.line (.ofText source) == line.number)).filterMap (Label.note? (.ofText source)))
  messages : (shown.flatMap fun line => line.notes.map (·.2)).Perm (d.labels.filterMap (·.message))

section

variable {d : Diagnostic} {source : String}

theorem fits_labelledLine
    (h : ∀ label ∈ d.labels, label.span.start ≤ label.span.stop ∧ label.span.stop ≤ source.utf8ByteSize) (number : Nat) :
    (labelledLine (.ofText source) d.labels number).Fits := by
  intro a ha
  obtain ⟨label, hlabel, rfl⟩ := List.mem_map.1 ha
  obtain ⟨hmem, hline⟩ := List.mem_filter.1 hlabel
  obtain ⟨hordered, hstop⟩ := h label hmem
  have hfits := fits_of_inside (Nat.le_trans hordered hstop) hstop
  rw [eq_of_beq hline] at hfits
  exact hfits

theorem labels_ne_nil {lines : LineMap} {number : Nat} (h : number ∈ lineNumbers lines d.labels) :
    (labelledLine lines d.labels number).labels ≠ [] := by
  obtain ⟨label, hlabel, hline⟩ := (mem_lineNumbers lines d.labels).1 h
  exact List.ne_nil_of_mem (List.mem_map_of_mem (List.mem_filter.2 ⟨hlabel, beq_iff_eq.2 hline⟩))

theorem messages_perm (lines : LineMap) (d : Diagnostic) :
    (((labelledLines lines d.labels).map LabelledLine.shown).flatMap fun line => line.notes.map (·.2)).Perm
      (d.labels.filterMap (·.message)) := by
  have hall : (d.labels.filter fun label => decide (label.line lines ∈ lineNumbers lines d.labels)) = d.labels :=
    List.filter_eq_self.2 fun label hlabel => decide_eq_true ((mem_lineNumbers lines d.labels).2 ⟨label, hlabel, rfl⟩)
  have hdistinct : (lineNumbers lines d.labels).Nodup := (rising_lineNumbers lines d.labels).imp Nat.ne_of_lt
  have hgroups := (flatMap_filter_perm (Label.line lines) hdistinct d.labels).filterMap (·.message)
  rw [hall, List.filterMap_flatMap] at hgroups
  rw [labelledLines_eq, List.map_map, List.flatMap_map]
  refine (List.Perm.flatMap_left _ fun number _ => ?_).trans hgroups
  have hnotes := (labelledLine_notes_perm lines d number).map (·.2)
  rw [List.map_filterMap] at hnotes
  simp only [Label.note?, Option.map_map] at hnotes
  simpa [Function.comp_def] using hnotes

theorem mem_shown {lines : LineMap} {line : ShownLine} :
    line ∈ (labelledLines lines d.labels).map LabelledLine.shown ↔
      ∃ number ∈ lineNumbers lines d.labels, (labelledLine lines d.labels number).shown = line := by
  rw [labelledLines_eq, List.map_map, List.mem_map]
  exact Iff.rfl

/-- A line on which a label starts has a text. -/
theorem text?_of_inside {label : Label} (h : label.span.start ≤ source.utf8ByteSize) :
    ((LineMap.ofText source).text? (label.line (.ofText source))).isSome = true := by
  rw [utf8ByteSize_eq_byteWidth] at h
  obtain ⟨front, line, back, hon⟩ := exists_onLine h
  rw [Label.line, hon.position_eq, hon.text?_eq]
  rfl

theorem shownWith_labelledLines (file : Option String)
    (h : ∀ label ∈ d.labels, label.span.start ≤ label.span.stop ∧ label.span.stop ≤ source.utf8ByteSize) :
    d.ShownWith source file ((labelledLines (.ofText source) d.labels).map LabelledLine.shown) where
  format := by
    refine format_eq file _ d fun line hline => ?_
    obtain ⟨number, hnumber, rfl⟩ := List.mem_map.1 hline
    exact LabelledLine.underline_ne_nil (fits_labelledLine h number) (labels_ne_nil hnumber)
  rising := by
    rw [labelledLines_eq, List.map_map]
    exact List.pairwise_map.2 (rising_lineNumbers _ _)
  starts := by
    intro number
    rw [← mem_lineNumbers]
    constructor
    · rintro ⟨line, hline, rfl⟩
      obtain ⟨number, hnumber, rfl⟩ := mem_shown.1 hline
      exact hnumber
    · exact fun hnumber => ⟨_, mem_shown.2 ⟨number, hnumber, rfl⟩, rfl⟩
  texts := by
    intro line hline
    obtain ⟨number, hnumber, rfl⟩ := mem_shown.1 hline
    obtain ⟨label, hlabel, rfl⟩ := (mem_lineNumbers _ _).1 hnumber
    obtain ⟨hordered, hstop⟩ := h label hlabel
    obtain ⟨text, htext⟩ := Option.isSome_iff_exists.1 (text?_of_inside (Nat.le_trans hordered hstop))
    show (LineMap.ofText source).text? (label.line _) = some (((LineMap.ofText source).text? (label.line _)).getD "")
    rw [htext, Option.getD_some]
  signs := by
    intro line hline column
    obtain ⟨number, -, rfl⟩ := mem_shown.1 hline
    rw [← sign_eq]
    exact LabelledLine.getD_underline (fits_labelledLine h number) column
  notes := by
    intro line hline
    obtain ⟨number, -, rfl⟩ := mem_shown.1 hline
    exact labelledLine_notes_perm _ d number
  messages := messages_perm _ d

end

end Diagnostic

/-- With its labels inside the document, a diagnostic is shown with all of them: each line that labels start on is
written once, in the order of the lines, with carets below what primary labels cover, dashes below what only
secondary ones do, and each message once. -/
theorem Diagnostic.shows_labels (d : Diagnostic) (source : String) (file : Option String)
    (h : ∀ label ∈ d.labels, label.span.start ≤ label.span.stop ∧ label.span.stop ≤ source.utf8ByteSize) :
    ∃ shown, d.ShownWith source file shown :=
  ⟨_, shownWith_labelledLines file h⟩

/-- Labels on the second line and at the end of the document. -/
theorem Diagnostic.shows_labels_two :
    let source := "a\r\nb :=\n"
    let labels : List Label := [⟨⟨8, 8⟩, .primary, some "end"⟩, ⟨⟨3, 7⟩, .secondary, none⟩]
    let d : Diagnostic := ⟨.error, none, "m", labels, [], none, [], true⟩
    (∀ label ∈ d.labels, label.span.start ≤ label.span.stop ∧ label.span.stop ≤ source.utf8ByteSize) ∧
      ∃ shown, d.ShownWith source none shown := by
  intro source labels d
  have hinside : ∀ label ∈ d.labels, label.span.start ≤ label.span.stop ∧ label.span.stop ≤ source.utf8ByteSize := by
    decide
  exact ⟨hinside, d.shows_labels source none hinside⟩

example :
    (labelledLines (.ofText "a\r\nb :=\n") [⟨⟨8, 8⟩, .primary, some "end"⟩, ⟨⟨3, 7⟩, .secondary, none⟩]).map
        LabelledLine.shown =
      [⟨2, "b :=", ['-', '-', '-', '-'], []⟩, ⟨3, "", ['^'], [(0, "end")]⟩] := by
  cbv

end JuiceSyntax
