/-
  The codes of faults, with what `explain` says about each.
-/

namespace JuiceSyntax

/-- What a fault is against: the alphabet, the grammar, the shape of a construct or a limit. -/
inductive CodeCategory where
  | lexical | syntactic | structural | limit
deriving DecidableEq, Repr, Inhabited

def CodeCategory.text : CodeCategory → String
  | lexical => "Lexical"
  | syntactic => "Syntax"
  | structural => "Structural"
  | limit => "Limit"

structure CodeInfo where
  code : String
  title : String
  category : CodeCategory
  explanation : String
deriving DecidableEq, Repr, Inhabited

/-- All codes, in ascending order. -/
def codeInfos : List CodeInfo := [
  ⟨"E0001", "unexpected character", .lexical,
    "The character cannot start any token. Juice has no ';' separators and strings use double quotes."⟩,
  ⟨"E0002", "unterminated string literal", .lexical,
    "A string was opened with '\"' but the file ended before it was closed."⟩,
  ⟨"E0003", "invalid escape sequence", .lexical,
    "Only \\\" \\\\ \\/ \\b \\f \\n \\r \\t \\$ \\0 and \\u escapes are recognised."⟩,
  ⟨"E0004", "malformed number", .lexical,
    "A number literal has a prefix without digits or digits outside its radix."⟩,
  ⟨"E0005", "number overflow", .lexical,
    "Integer literals must fit in an unsigned 64-bit value."⟩,
  ⟨"E0006", "interpolation nested too deeply", .lexical,
    "String interpolations inside string interpolations are limited in depth."⟩,
  ⟨"E0100", "unexpected token", .syntactic,
    "The parser found a token that cannot appear here."⟩,
  ⟨"E0101", "missing token", .syntactic,
    "A closing delimiter or separator is missing."⟩,
  ⟨"E0102", "ambiguous braces", .syntactic,
    "A '\x7b' in value position reads neither as a record literal nor as a block."⟩,
  ⟨"E0103", "reserved keyword", .syntactic,
    "'loop' and 'await' are reserved and cannot be used yet."⟩,
  ⟨"E0104", "export without declaration", .syntactic,
    "'export' must be followed by a function, type or variable declaration."⟩,
  ⟨"E0200", "mixed constructor styles", .structural,
    "A type body is either all fields ('name: Type') or all constructors ('Name(params)')."⟩,
  ⟨"E0201", "single-element tuple", .structural,
    "Tuples need at least two elements; drop the trailing comma to group a single value."⟩,
  ⟨"E0300", "nesting too deep", .limit,
    "The input nests deeper than the parser's depth limit; parsing stopped."⟩,
  ⟨"E0301", "too many errors", .limit,
    "The error limit was reached; parsing stopped."⟩]

def codeInfo? (code : String) : Option CodeInfo := codeInfos.find? (·.code == code)

/-- The table is in ascending order, and no code stands twice in it. -/
theorem codeInfos_sorted : codeInfos.Pairwise fun a b => a.code < b.code := by decide

end JuiceSyntax
