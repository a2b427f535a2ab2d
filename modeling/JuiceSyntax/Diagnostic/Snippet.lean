/-
  Diagnostics as text, with the source lines that their labels are on. A line with labels is
  followed by a row that underlines them and by their messages.
-/
import JuiceSyntax.Diagnostic.Basic
import JuiceSyntax.Source.Lines
import JuiceSyntax.Text.Style

namespace JuiceSyntax

/-- A label on one line. Columns count bytes from zero. -/
structure LineLabel where
  start : Nat
  stop : Nat
  role : LabelRole
  message : Option String
deriving DecidableEq, Repr, Inhabited

/-- A source line with its labels. -/
structure LabelledLine where
  number : Nat
  text : String
  labels : List LineLabel
deriving DecidableEq, Repr, Inhabited

/-- What is written the same for every diagnostic. -/
structure SnippetStyle where
  colour : Bool
  /-- The name of the document. -/
  file : Option String
deriving DecidableEq, Repr, Inhabited

namespace LineLabel

/-- A label on the line it starts on. It is at least one column wide, and one that ends on
another line goes to the end of the line. -/
def ofLabel (lines : LineMap) (label : Label) : LineLabel :=
  let (line, column) := lines.position label.span.start
  let (endLine, endColumn) := lines.position label.span.stop
  let stop :=
    if endLine == line then endColumn - 1
    else ((lines.text? line).getD "").utf8ByteSize
  ⟨column - 1, max stop column, label.role, label.message⟩

def covers (a : LineLabel) (column : Nat) : Bool := decide (a.start ≤ column ∧ column < a.stop)

def isPrimary (a : LineLabel) : Bool := a.role == .primary

/-- Primary labels come first, and among those of one role the one further left. -/
def comesBefore (a b : LineLabel) : Bool :=
  if a.isPrimary == b.isPrimary then decide (a.start ≤ b.start) else a.isPrimary

end LineLabel

/-- The lines that labels start on, in ascending order, each with the labels that do. -/
def labelledLines (lines : LineMap) (labels : List Label) : List LabelledLine :=
  let lineOf (label : Label) := (lines.position label.span.start).1
  let numbers := ((labels.map lineOf).eraseDups).mergeSort fun a b => decide (a ≤ b)
  numbers.map fun number =>
    ⟨number, (lines.text? number).getD "",
      (labels.filter fun label => lineOf label == number).map (LineLabel.ofLabel lines)⟩

namespace LabelledLine

/-- The sign under a column: a caret under primary labels, else a dash under secondary ones. -/
def sign (line : LabelledLine) (column : Nat) : Char :=
  if line.labels.any fun a => a.isPrimary && a.covers column then '^'
  else if line.labels.any fun a => a.covers column then '-'
  else ' '

/-- The signs under a line, up to one column past its end, without blanks after the last. -/
def underline (line : LabelledLine) : List Char :=
  let signs := (List.range (line.text.utf8ByteSize + 2)).map line.sign
  (signs.reverse.dropWhile (· == ' ')).reverse

/-- The messages of the labels, the one furthest right first. -/
def messages (line : LabelledLine) : List (Nat × LabelRole × String) :=
  let sorted := line.labels.mergeSort LineLabel.comesBefore
  (sorted.filterMap fun a => a.message.map fun message => (a.start, a.role, message)).mergeSort
    fun a b => decide (b.1 ≤ a.1)

end LabelledLine

/-- Runs of one sign. -/
def signRuns : List Char → List (List Char)
  | [] => []
  | c :: cs =>
    match signRuns cs with
    | [] => [[c]]
    | [] :: runs => [c] :: runs
    | (d :: run) :: runs => if c = d then (c :: d :: run) :: runs else [c] :: (d :: run) :: runs

namespace SnippetStyle

def paintSigns (style : SnippetStyle) (signs : List Char) : String :=
  String.join ((signRuns signs).map fun run =>
    match run.head? with
    | some '^' => paint style.colour .boldRed (String.ofList run)
    | some '-' => paint style.colour .blue (String.ofList run)
    | _ => String.ofList run)

def paintMessage (style : SnippetStyle) (role : LabelRole) (message : String) : String :=
  match role with
  | .primary => paint style.colour .boldRed message
  | .secondary => paint style.colour .blue message

/-- The bar between the line numbers and the lines. -/
def bar (style : SnippetStyle) : String := paint style.colour .blue "|"

def header (style : SnippetStyle) (d : Diagnostic) : String :=
  let severity := paint style.colour (match d.severity with | .error => .boldRed | .warning => .boldYellow)
    d.severity.text
  let code := match d.code with
    | some code => "[" ++ paint style.colour .boldRed code ++ "]"
    | none => ""
  severity ++ code ++ ": " ++ paint style.colour .bold d.message ++ "\n"

/-- The row of signs under a line and the rows of messages; nothing if no sign is left. -/
def rows (style : SnippetStyle) (gutter : Nat) (line : LabelledLine) : String :=
  let signs := line.underline
  let start := spaces (gutter + 1) ++ " " ++ style.bar ++ " "
  let row := start ++ style.paintSigns signs
  if signs.isEmpty then ""
  else
    match line.messages with
    | [(_, role, message)] => row ++ " " ++ style.paintMessage role message ++ "\n"
    | messages =>
      row ++ "\n" ++ String.join (messages.map fun (column, role, message) =>
        start ++ spaces column ++ style.paintMessage role message ++ "\n")

def sourceRow (style : SnippetStyle) (gutter : Nat) (line : LabelledLine) : String :=
  paint style.colour .boldBlue (padLeft (gutter + 1) (toString line.number)) ++ " " ++ style.bar ++ " " ++
    line.text ++ "\n"

/-- The lines, with dots where lines between them are left out. -/
def sourceRows (style : SnippetStyle) (gutter : Nat) : Option Nat → List LabelledLine → String
  | _, [] => ""
  | previous, line :: rest =>
    let gap := match previous with
      | some n => decide (n + 1 < line.number)
      | none => false
    let dots := if gap then spaces gutter ++ " " ++ paint style.colour .blue "..." ++ "\n" else ""
    dots ++ style.sourceRow gutter line ++ style.rows gutter line ++
      style.sourceRows gutter (some line.number) rest

def footerRow (style : SnippetStyle) (title text : String) : String :=
  spaces 4 ++ paint style.colour .cyan "=" ++ " " ++ paint style.colour .boldCyan title ++ ": " ++ text ++ "\n"

def footer (style : SnippetStyle) (d : Diagnostic) : String :=
  (if 1 < d.expected.length then style.footerRow "expected" ("one of " ++ ", ".intercalate d.expected)
    else "") ++
    String.join (d.notes.map (style.footerRow "note")) ++
    (d.help.map (style.footerRow "help")).getD ""

/-- One diagnostic: header, place, lines with labels, footer. -/
def format (style : SnippetStyle) (lines : LineMap) (d : Diagnostic) : String :=
  let labelled := labelledLines lines d.labels
  let snippet :=
    match labelled.getLast?, d.primary? with
    | some last, some primary =>
      let (line, column) := lines.position primary.start
      let gutter := max (toString last.number).length 2
      let place := style.file.getD "<source>" ++ s!":{line}:{column}\n"
      "  " ++ paint style.colour .blue "-->" ++ " " ++ place ++
        spaces (gutter + 1) ++ " " ++ style.bar ++ "\n" ++ style.sourceRows gutter none labelled
    | _, _ => ""
  style.header d ++ snippet ++ style.footer d

/-- All diagnostics, with blank lines between them. -/
def formatAll (style : SnippetStyle) (source : String) (ds : List Diagnostic) : String :=
  let lines := LineMap.ofText source
  "\n".intercalate (ds.map (style.format lines))

end SnippetStyle

end JuiceSyntax
