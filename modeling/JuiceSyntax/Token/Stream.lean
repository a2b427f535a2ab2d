/-
  From text to tokens. Each lexeme adds a token, a comment, a fault or nothing, at its offset;
  a string adds what the fragments in it add, lexed in their place. A fault never stops the
  reading: the tokens are those of the whole text.

  Fragments nest at most `fragmentLimit` deep. A text or fragment reports at most `faultLimit`
  faults, the first ones.
-/
import JuiceSyntax.Comment
import JuiceSyntax.Token.Lexeme

namespace JuiceSyntax

/-- What a stretch of text holds. -/
structure Lexed where
  tokens : List Token
  comments : List Comment
  faults : List LexFault
deriving Inhabited

namespace Lexed

def empty : Lexed := ⟨[], [], []⟩

def append (a b : Lexed) : Lexed :=
  ⟨a.tokens ++ b.tokens, a.comments ++ b.comments, a.faults ++ b.faults⟩

instance : Append Lexed := ⟨append⟩

@[simp] theorem tokens_append (a b : Lexed) : (a ++ b).tokens = a.tokens ++ b.tokens := rfl

@[simp] theorem comments_append (a b : Lexed) : (a ++ b).comments = a.comments ++ b.comments := rfl

@[simp] theorem faults_append (a b : Lexed) : (a ++ b).faults = a.faults ++ b.faults := rfl

end Lexed

/-- How deep fragments may nest. -/
def fragmentLimit : Nat := 64

/-- How many faults are reported. -/
def faultLimit : Nat := 20

/-- The first faults within a limit; all of them without one. -/
def capFaults (limit : Option Nat) (faults : List LexFault) : List LexFault :=
  match limit with
  | some n => faults.take n
  | none => faults

/-- What the body of a literal holds. -/
structure Body where
  pieces : List Piece
  comments : List Comment
  faults : List LexFault
deriving Inhabited

/-- Reads the parts of a body, the first of them at `offset`. `fragment?` lexes a fragment at
an offset; without it fragments are too deep. -/
def readParts (fragment? : Option (Nat → List Char → Lexed)) : Nat → List Part → Body
  | _, [] => ⟨[], [], []⟩
  | offset, part :: rest =>
    let span : Span := ⟨offset, offset + byteWidth part.raw⟩
    let body := readParts fragment? span.stop rest
    match part.kind, fragment? with
    | .text, _ => { body with pieces := .text (String.ofList part.raw) span :: body.pieces }
    | .indent, _ => { body with pieces := .indent span :: body.pieces }
    | .escape value, _ =>
      { body with pieces := .escape value (String.ofList part.raw) span :: body.pieces }
    | .badEscape value, _ =>
      let raw := String.ofList part.raw
      { body with
        pieces := .escape value raw span :: body.pieces
        faults := ⟨.invalidEscape raw, span⟩ :: body.faults }
    | .fragment _, none => { body with faults := ⟨.fragmentTooDeep, span⟩ :: body.faults }
    | .fragment _, some lex =>
      let inner := lex (offset + 2) part.inner
      ⟨.fragment inner.tokens span :: body.pieces, inner.comments ++ body.comments,
        inner.faults ++ body.faults⟩

/-- Reads a quoted string, given with its quotes. -/
def readString (fragment? : Option (Nat → List Char → Lexed)) (closed : Bool) (raw : List Char)
    (span : Span) : Lexed :=
  let quoted := raw.drop 1
  let text := if closed then quoted.dropLast else quoted
  let (lead, content, multiline) :=
    match multilineContent? text with
    | some (lead, content) => (lead, content, true)
    | none => ([], text, false)
  let body := readParts fragment? (span.start + 1 + byteWidth lead) (parts multiline content)
  let unterminated := if closed then [] else [⟨.unterminatedString, span⟩]
  ⟨[⟨.str multiline body.pieces, span⟩], body.comments, unterminated ++ body.faults⟩

/-- The carriage returns at the end of a comment are not part of its text. -/
def commentText (raw : List Char) : String :=
  String.ofList (raw.reverse.dropWhile (· == '\r')).reverse

/-- What one lexeme adds. -/
def readLexeme (fragment? : Option (Nat → List Char → Lexed)) (offset : Nat) (lexeme : Lexeme) : Lexed :=
  let span : Span := ⟨offset, offset + byteWidth lexeme.raw⟩
  let token (kind : Kind) (cause? : Option LexCause) : Lexed :=
    ⟨[⟨kind, span⟩], [], (cause?.map fun cause => ⟨cause, span⟩).toList⟩
  match lexeme.kind with
  | .blank => .empty
  | .comment => ⟨[], [⟨span, commentText lexeme.raw⟩], []⟩
  | .word word => token (.word word) none
  | .bool value => token (.bool value) none
  | .name => token (.name (String.ofList lexeme.raw)) none
  | .macroName => token (.macroName (String.ofList lexeme.raw.dropLast)) none
  | .typeName => token (.typeName (String.ofList lexeme.raw)) none
  | .integer radix =>
    let (value, cause?) := readInteger radix lexeme.raw
    token (.int value radix) cause?
  | .decimal =>
    let (value, cause?) := readDecimal lexeme.raw
    token (.float value) cause?
  | .string closed => readString fragment? closed lexeme.raw span
  | .mark mark => token (.mark mark) none
  | .stray => ⟨[], [], lexeme.raw.map fun c => ⟨.unexpectedChar c, span⟩⟩

/-- Reads lexemes, the first of them at `offset`, and closes the tokens with `done`. -/
def readLexemes (fragment? : Option (Nat → List Char → Lexed)) : Nat → List Lexeme → Lexed
  | offset, [] => ⟨[⟨.done, .point offset⟩], [], []⟩
  | offset, lexeme :: rest =>
    readLexeme fragment? offset lexeme ++ readLexemes fragment? (offset + byteWidth lexeme.raw) rest

/-- Lexes a text at `offset`. Fragments may nest `levels` deep in it, and it reports as many
faults as `limit` allows. -/
def lexAt (limit : Option Nat) : Nat → Nat → List Char → Lexed
  | 0, offset, text =>
    let lexed := readLexemes none offset (lexemes text)
    { lexed with faults := capFaults limit lexed.faults }
  | levels + 1, offset, text =>
    let lexed := readLexemes (some (lexAt limit levels)) offset (lexemes text)
    { lexed with faults := capFaults limit lexed.faults }

/-- A lexed document. -/
structure LexedDocument extends Lexed where
  /-- The `#!` line that the document begins with. -/
  shebang : Option Span
deriving Inhabited

/-- The characters of the `#!` line, without its line break. -/
def shebangLine (text : List Char) : List Char :=
  if ['#', '!'].isPrefixOf text then text.takeWhile (· != '\n') else []

/-- Lexes a document, with a limit of faults or without. -/
def lexWithin (limit : Option Nat) (source : String) : LexedDocument :=
  let text := source.toList
  let line := shebangLine text
  let lexed := lexAt limit fragmentLimit (byteWidth line) (text.drop line.length)
  { lexed with shebang := if line.isEmpty then none else some ⟨0, byteWidth line⟩ }

def lex (source : String) : LexedDocument := lexWithin (some faultLimit) source

end JuiceSyntax
