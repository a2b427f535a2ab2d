/-
  Diagnostics as a JSON report, with the place of each by line and column and the text of the
  line it is on.
-/
import JuiceSyntax.Diagnostic.Basic
import JuiceSyntax.Diagnostic.Code
import JuiceSyntax.Source.Lines
import JuiceSyntax.Text.Json

namespace JuiceSyntax

open JsonValue (number)

def reportVersion : Nat := 1

/-- A field that is left out if there is no value. -/
def optionalField (name : String) (value : Option JsonValue) : List (String × JsonValue) :=
  (value.map fun value => (name, value)).toList

/-- A field that is left out if the list is empty. -/
def textsField (name : String) (texts : List String) : List (String × JsonValue) :=
  if texts.isEmpty then [] else [(name, .list (texts.map .text))]

def positionValue (lines : LineMap) (offset : Nat) : JsonValue :=
  let (line, column) := lines.position offset
  .record [("line", number line), ("column", number column)]

def locationValue (lines : LineMap) (span : Span) : JsonValue :=
  let (line, column) := lines.position span.start
  .record [("line", number line), ("column", number column), ("byte_offset", number span.start),
    ("source_line", .text ((lines.text? line).getD ""))]

def Label.value (lines : LineMap) (label : Label) : JsonValue :=
  .record ([("role", JsonValue.text label.role.text)] ++ optionalField "message" (label.message.map .text) ++
    [("span", .record [("start", number label.span.start), ("end", number label.span.stop)]),
      ("start", positionValue lines label.span.start), ("end", positionValue lines label.span.stop)])

def Diagnostic.value (lines : LineMap) (d : Diagnostic) : JsonValue :=
  let category := (d.code.bind codeInfo?).map fun entry => entry.category.text
  .record ([("severity", JsonValue.text d.severity.text)] ++ optionalField "code" (d.code.map .text) ++
    optionalField "category" (category.map .text) ++ [("message", .text d.message)] ++
    optionalField "location" (d.primary?.map (locationValue lines)) ++
    [("labels", .list (d.labels.map (Label.value lines)))] ++ textsField "expected" d.expected ++
    textsField "notes" d.notes ++ optionalField "help" (d.help.map .text) ++
    [("recoverable", .bool d.recoverable)])

/-- The report on a document. -/
def report (source file : String) (ds : List Diagnostic) : JsonValue :=
  let lines := LineMap.ofText source
  let errors := (ds.filter (·.severity == .error)).length
  .record [("version", number reportVersion), ("file", .text file), ("success", .bool (errors == 0)),
    ("diagnostics", .list (ds.map (Diagnostic.value lines))), ("error_count", number errors),
    ("warning_count", number (ds.length - errors))]

end JuiceSyntax
