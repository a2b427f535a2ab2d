/-
  What the program answers to a request, given what its files hold.
-/
import JuiceSyntax.Command.Arguments
import JuiceSyntax.Diagnostic.OfFault
import JuiceSyntax.Diagnostic.Report
import JuiceSyntax.Diagnostic.Snippet
import JuiceSyntax.Token.Listing
import JuiceSyntax.Tree.Sexpr

namespace JuiceSyntax

/-- What reading a file gives. -/
inductive FileContent where
  | absent
  /-- Bytes that are not text. -/
  | unreadable
  | text (text : String)
deriving DecidableEq, Repr, Inhabited

def FileContent.ofBytes (bytes : ByteArray) : FileContent :=
  match String.fromUTF8? bytes with
  | some s => text s
  | none => unreadable

/-- What the program prints and how it ends. -/
structure Outcome where
  status : Nat
  output : String
  errors : String
deriving DecidableEq, Repr, Inhabited

namespace Outcome

def success (output : String) : Outcome := ⟨0, output, ""⟩

def failure (errors : String) : Outcome := ⟨1, "", errors⟩

def fileFailure (file reason : String) : Outcome :=
  failure ("Error: failed to read " ++ file ++ "\n\nCaused by:\n    " ++ reason ++ "\n")

end Outcome

/-- What a run depends on besides the request. -/
structure Surroundings where
  colour : Bool
  content : String → FileContent

namespace Surroundings

def banner (s : Surroundings) (style : Style) (text : String) : String :=
  let rule := paint s.colour .dimmed "==="
  rule ++ " " ++ paint s.colour style text ++ " " ++ rule ++ "\n"

def failureBanner (s : Surroundings) (phase : String) (count : Nat) : String :=
  let errors := if count == 1 then "1 error" else toString count ++ " errors"
  s.banner .boldRed (phase ++ " FAILED: " ++ errors)

def snippets (s : Surroundings) (file source : String) (ds : List Diagnostic) : String :=
  (SnippetStyle.mk s.colour (some file)).formatAll source ds

/-- The failure of a phase with the diagnostics as text. -/
def failed (s : Surroundings) (phase file source : String) (ds : List Diagnostic) : Outcome :=
  .failure (s.snippets file source ds ++ "\n" ++ s.failureBanner phase ds.length)

/-- Goes on with the text of a file, if it has one. -/
def withSource (s : Surroundings) (file : String) (run : String → Outcome) : Outcome :=
  match s.content file with
  | .text source => run source
  | .absent => .fileFailure file "No such file or directory (os error 2)"
  | .unreadable => .fileFailure file "stream did not contain valid UTF-8"

/-! ## Tokens -/

def tokenRow (span : Span) (text : String) : String :=
  padLeft 4 (toString span.start) ++ ":" ++ padRight 4 (toString span.stop) ++ " " ++ text ++ "\n"

def lexSource (s : Surroundings) (file source : String) : Outcome :=
  let lexed := lex source
  if lexed.faults.isEmpty then
    let shebang := (lexed.shebang.map fun span => tokenRow span "shebang").getD ""
    let rows := String.join (lexed.tokens.map fun token => tokenRow token.span token.kind.listing)
    let counts := s!"{lexed.tokens.length} tokens, {lexed.comments.length} comments"
    .success (shebang ++ rows ++ "\n" ++ s.banner .boldGreen ("Lex OK: " ++ counts))
  else s.failed "Lex" file source (lexed.faults.map LexFault.diagnostic)

/-! ## Trees -/

def commentRows (s : Surroundings) (comments : List Comment) : String :=
  String.join (comments.map fun c => paint s.colour .dimmed c.text ++ "\n")

/-- The dump of items, each after the comments that begin before it, and the other comments at
the end. -/
def treeRows (s : Surroundings) : Comment.Queue → List Item → String
  | queue, [] => s.commentRows queue.takeRest.1
  | queue, item :: rest =>
    let (comments, queue) := queue.takeBefore item.span.start
    s.commentRows comments ++ item.sexpr.render ++ "\n" ++ s.treeRows queue rest

def tree (s : Surroundings) (document : Document) : String :=
  s.treeRows (.ofList document.comments) document.program.items

def readSource (s : Surroundings) (file source : String) (options : Options) (format : ReportFormat)
    (withTree : Bool) : Outcome :=
  let document := Document.read source options
  let ds := document.diagnostics
  match format with
  | .json => ⟨if ds.isEmpty then 0 else 1, (report source file ds).render ++ "\n", ""⟩
  | .text =>
    if ds.isEmpty then
      let rows := if withTree then s.tree document else ""
      let count := toString document.program.items.length
      let detail := "Parse OK: " ++ count ++ " items in " ++ paint s.colour .underlined file
      .success (rows ++ s.banner .boldGreen detail)
    else s.failed "Parse" file source ds

/-! ## Codes -/

def codeRow (s : Surroundings) (entry : CodeInfo) : String :=
  "  " ++ paint s.colour .boldRed entry.code ++ "  " ++ padRight 10 entry.category.text ++ "  " ++
    entry.title ++ "\n"

def codeTable (s : Surroundings) : String :=
  paint s.colour .boldYellow "Error codes:" ++ "\n" ++ String.join (codeInfos.map s.codeRow)

def codePage (s : Surroundings) (entry : CodeInfo) : String :=
  paint s.colour .boldRed "error" ++ "[" ++ paint s.colour .boldRed entry.code ++ "]: " ++
    paint s.colour .bold entry.title ++ "\n\n  Category: " ++ entry.category.text ++ "\n\n  " ++
    entry.explanation ++ "\n\n  Run `juice check <file>` to see this error in context.\n"

def unknownCode (s : Surroundings) (code : String) : String :=
  paint s.colour .boldRed "error" ++ ": unknown error code `" ++ code ++ "`\n\n" ++
    "Error codes use the format E0NNN (e.g., E0100, E0201).\nRun `juice explain` to list them.\n"

/-- Explains a code, of which the letters may be of either case. -/
def explain (s : Surroundings) : Option String → Outcome
  | none => .success s.codeTable
  | some code =>
    match codeInfo? (code.map Char.toUpper) with
    | some entry => .success (s.codePage entry)
    | none => .failure (s.unknownCode code)

/-! ## Requests -/

def answer (s : Surroundings) : Request → Outcome
  | .version => .success "juice 0.1.0\n"
  | .lex file => s.withSource file (s.lexSource file)
  | .parse file options format => s.withSource file fun source => s.readSource file source options format true
  | .check file options format => s.withSource file fun source => s.readSource file source options format false
  | .explain code => s.explain code

end Surroundings

end JuiceSyntax
