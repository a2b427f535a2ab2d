/-
  Documents: the text of a program or of one expression, read from end to end. Lexical faults
  inside macro bodies do not count, since what is in them is never read.
-/
import JuiceSyntax.Grammar.Level
import JuiceSyntax.Token.Stream

namespace JuiceSyntax

/-- The reading of a document with these options. -/
def Setting.ofSource (source : String) (options : Options) : Setting := ⟨source.toList, options, true⟩

/-- The faults that are not inside a macro body. -/
def outsideBodies (bodies : List Span) (faults : List LexFault) : List LexFault :=
  faults.filter fun fault => !bodies.any fun body => body.holds fault.span

structure Document where
  program : Program
  tokens : List Token
  comments : List Comment
  lexFaults : List LexFault
  faults : List Fault

namespace Document

/-- No fault of either kind was found. -/
def isClean (d : Document) : Bool := d.lexFaults.isEmpty && d.faults.isEmpty

/-- Reads a program. In strict mode lexical faults leave no tree and no other faults. -/
def read (source : String) (options : Options) : Document :=
  let lexed := lex source
  let reading := readItems (.ofSource source options) lexed.tokens
  let lexFaults := outsideBodies reading.macroBodies lexed.faults
  let program : Program := ⟨lexed.shebang, reading.value, ⟨0, source.utf8ByteSize⟩⟩
  if options.strict && !lexFaults.isEmpty then
    ⟨{ program with items := [] }, lexed.tokens, lexed.comments, lexFaults, []⟩
  else
    ⟨program, lexed.tokens, lexed.comments, lexFaults, reading.faults⟩

end Document

/-- One expression as a document of its own. -/
structure ExprDocument where
  expr : Option Expr
  lexFaults : List LexFault
  faults : List Fault

namespace ExprDocument

def isClean (d : ExprDocument) : Bool := d.expr.isSome && d.lexFaults.isEmpty && d.faults.isEmpty

def read (source : String) : ExprDocument :=
  let lexed := lex source
  let reading := readExpr (.ofSource source .standard) lexed.tokens
  ⟨reading.value, outsideBodies reading.macroBodies lexed.faults, reading.faults⟩

end ExprDocument

end JuiceSyntax
