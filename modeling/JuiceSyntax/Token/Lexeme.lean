/-
  Lexemes: the cutting of a text into words, numbers, marks, strings, comments and blanks, with
  no regard to what they mean. Of all lexemes that a text begins with, the longest is cut; a
  reserved word is not a name.

  `raw_firstLexeme`, `firstLexeme_length_pos`: a lexeme is what stands at the front of the text,
  and takes at least one character of it. `flatMap_raw_lexemes`: the lexemes, put together again,
  are the text; nothing is lost between them.
-/
import JuiceSyntax.Token.Literal

namespace JuiceSyntax

/-- What a lexeme is. -/
inductive LexemeKind where
  | blank
  | comment
  | word (word : Keyword)
  | bool (value : Bool)
  | name
  | macroName
  | typeName
  | integer (radix : Radix)
  | decimal
  | string (closed : Bool)
  | mark (mark : Mark)
  /-- A character that no lexeme begins with. -/
  | stray
deriving DecidableEq, Repr, Inhabited

/-- A lexeme with its characters as written. -/
structure Lexeme where
  kind : LexemeKind
  raw : List Char
deriving DecidableEq, Repr, Inhabited

/-- A blank between lexemes. -/
def isBlank (c : Char) : Bool := c == ' ' || c == '\t' || c == '\r' || c == '\n' || c == '\x0c'

def isDigit (c : Char) : Bool := '0' ≤ c && c ≤ '9'

def isLower (c : Char) : Bool := 'a' ≤ c && c ≤ 'z'

def isUpper (c : Char) : Bool := 'A' ≤ c && c ≤ 'Z'

def startsName (c : Char) : Bool := isLower c || c == '_'

def continuesName (c : Char) : Bool := isLower c || isDigit c || c == '_'

def continuesTypeName (c : Char) : Bool := isUpper c || continuesName c

def continuesNumber (c : Char) : Bool := isDigit c || c == '_'

/-- The radix that a text begins a literal of. -/
def radixAt : List Char → Radix
  | '0' :: 'x' :: _ => .hex
  | '0' :: 'b' :: _ => .binary
  | '0' :: 'o' :: _ => .octal
  | _ => .decimal

/-- A point after digits makes them a decimal, unless a second point follows. -/
def fractionLength : List Char → Nat
  | '.' :: '.' :: _ => 0
  | '.' :: rest => (rest.takeWhile continuesNumber).length + 1
  | _ => 0

def numberAt (text : List Char) : LexemeKind × Nat :=
  match radixAt text with
  | .decimal =>
    let digits := (text.takeWhile continuesNumber).length
    match fractionLength (text.drop digits) with
    | 0 => (.integer .decimal, digits)
    | n => (.decimal, digits + n)
  | radix => (.integer radix, ((text.drop 2).takeWhile continuesTypeName).length + 2)

/-- A word is reserved, or a name, or the name of a macro if a bang follows that is not half
of `!=`. -/
def wordAt (text : List Char) : LexemeKind × Nat :=
  let word := text.takeWhile continuesName
  let n := word.length
  match String.ofList word with
  | "true" => (.bool true, n)
  | "false" => (.bool false, n)
  | spelling =>
    match Keyword.ofText? spelling with
    | some keyword => (.word keyword, n)
    | none =>
      match text.drop n with
      | '!' :: '=' :: _ => (.name, n)
      | '!' :: _ => (.macroName, n + 1)
      | _ => (.name, n)

def stringAt (text : List Char) : LexemeKind × Nat :=
  match literalLength [.text] (text.drop 1) with
  | some n => (.string true, n + 1)
  | none => (.string false, text.length)

/-- Kind and length of the lexeme that a text begins with, by its first character. -/
def lexemeAt (c : Char) (rest : List Char) : LexemeKind × Nat :=
  let text := c :: rest
  if isBlank c then (.blank, 1)
  else if ['/', '/'].isPrefixOf text then (.comment, (text.takeWhile (· != '\n')).length)
  else if isDigit c then numberAt text
  else if startsName c then wordAt text
  else if isUpper c then (.typeName, (text.takeWhile continuesTypeName).length)
  else if c == '"' then stringAt text
  else
    match Mark.ofChars? text with
    | some mark => (.mark mark, mark.chars.length)
    | none => (.stray, 1)

def firstLexeme (c : Char) (rest : List Char) : Lexeme :=
  let (kind, n) := lexemeAt c rest
  ⟨kind, (c :: rest).take n⟩

theorem raw_firstLexeme (c : Char) (rest : List Char) :
    (firstLexeme c rest).raw <+: c :: rest := List.take_prefix _ _

/-- Cuts at most `fuel` lexemes off a text. -/
def cutLexemes : Nat → List Char → List Lexeme
  | 0, _ => []
  | _ + 1, [] => []
  | fuel + 1, c :: rest =>
    let lexeme := firstLexeme c rest
    lexeme :: cutLexemes fuel ((c :: rest).drop lexeme.raw.length)

/-- The lexemes of a text, of which each takes at least one character. -/
def lexemes (text : List Char) : List Lexeme := cutLexemes text.length text

/-! ## Nothing is lost -/

theorem takeWhile_length_pos {p : Char → Bool} {c : Char} (h : p c = true) (cs : List Char) :
    0 < ((c :: cs).takeWhile p).length := by
  simp [List.takeWhile, h]

theorem chars_length_pos (m : Mark) : 0 < m.chars.length := by
  cases m <;> decide

theorem numberAt_length_pos {c : Char} (h : isDigit c = true) (rest : List Char) :
    0 < (numberAt (c :: rest)).2 := by
  have hc : continuesNumber c = true := by simp [continuesNumber, h]
  have hpos := takeWhile_length_pos hc rest
  unfold numberAt
  split
  · dsimp only
    split
    · exact hpos
    · exact Nat.lt_of_lt_of_le hpos (Nat.le_add_right _ _)
  · exact Nat.succ_pos _

theorem wordAt_length_pos {c : Char} (h : startsName c = true) (rest : List Char) :
    0 < (wordAt (c :: rest)).2 := by
  have hc : continuesName c = true := by
    simp only [startsName, Bool.or_eq_true] at h
    simp only [continuesName, Bool.or_eq_true]
    rcases h with h | h
    · exact Or.inl (Or.inl h)
    · exact Or.inr h
  have hpos := takeWhile_length_pos hc rest
  unfold wordAt
  dsimp only
  split
  · exact hpos
  · exact hpos
  · split
    · exact hpos
    · split
      · exact hpos
      · exact Nat.succ_pos _
      · exact hpos

theorem stringAt_length_pos (c : Char) (rest : List Char) : 0 < (stringAt (c :: rest)).2 := by
  unfold stringAt
  split
  · exact Nat.succ_pos _
  · exact Nat.succ_pos _

/-- Every lexeme takes at least one character. -/
theorem lexemeAt_length_pos (c : Char) (rest : List Char) : 0 < (lexemeAt c rest).2 := by
  unfold lexemeAt
  dsimp only
  split
  · exact Nat.one_pos
  split
  · rename_i hcomment
    have hc : c = '/' := by
      simp only [List.isPrefixOf, Bool.and_eq_true, beq_iff_eq] at hcomment
      exact hcomment.1.symm
    exact takeWhile_length_pos (by simp [hc]) rest
  split
  · exact numberAt_length_pos (by assumption) rest
  split
  · exact wordAt_length_pos (by assumption) rest
  split
  · rename_i hupper
    exact takeWhile_length_pos (by simp [continuesTypeName, hupper]) rest
  split
  · exact stringAt_length_pos c rest
  split
  · exact chars_length_pos _
  · exact Nat.one_pos

theorem firstLexeme_length_pos (c : Char) (rest : List Char) : 0 < (firstLexeme c rest).raw.length := by
  have h := lexemeAt_length_pos c rest
  simp only [firstLexeme, List.length_take, List.length_cons]
  omega

theorem flatMap_raw_cutLexemes (fuel : Nat) (text : List Char) (h : text.length ≤ fuel) :
    (cutLexemes fuel text).flatMap (·.raw) = text := by
  induction fuel generalizing text with
  | zero => simp [cutLexemes, List.length_eq_zero_iff.1 (Nat.le_zero.1 h)]
  | succ fuel ih =>
    cases text with
    | nil => rfl
    | cons c rest =>
      have hpos := firstLexeme_length_pos c rest
      have hfront := raw_firstLexeme c rest
      have hdrop : ((c :: rest).drop (firstLexeme c rest).raw.length).length ≤ fuel := by
        simp only [List.length_drop, List.length_cons] at h ⊢
        omega
      rw [cutLexemes, List.flatMap_cons, ih _ hdrop]
      exact List.prefix_iff_eq_append.1 hfront

theorem flatMap_raw_lexemes (text : List Char) : (lexemes text).flatMap (·.raw) = text :=
  flatMap_raw_cutLexemes _ _ (Nat.le_refl _)

end JuiceSyntax
