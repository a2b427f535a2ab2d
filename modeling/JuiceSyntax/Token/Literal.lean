/-
  The body of a quoted string.

  `literalLength` finds where a literal ends, through the fragments in it and the literals in
  those. `parts` cuts a body into its parts as written. `escape?` says what an escape stands for.

  A body that begins with a line break is multi-line: that line break, and the last one with
  the blanks after it, are not content, and a marker `| ` at the start of a line sets off its
  indentation.

  `flatMap_raw_parts`: the parts of a content, put together again, are the content.
-/
import JuiceSyntax.Source.Bytes
import JuiceSyntax.Token.Number

namespace JuiceSyntax

/-- Where a scan of a literal stands. -/
inductive QuoteMode where
  /-- Among the characters of a literal. -/
  | text
  /-- In a fragment, below this many open braces. -/
  | code (braces : Nat)
  /-- In a comment of a fragment. -/
  | comment
deriving DecidableEq, Repr, Inhabited

/-- The number of characters until the last of the open modes is closed, the closing character
included; `none` if the text ends before. -/
def literalLength : List QuoteMode → List Char → Option Nat
  | [], _ => some 0
  | _ :: _, [] => none
  | .text :: modes, '"' :: cs => (literalLength modes cs).map (· + 1)
  | .text :: _, ['\\'] => none
  | .text :: modes, '\\' :: _ :: cs => (literalLength (.text :: modes) cs).map (· + 2)
  | .text :: modes, '$' :: '{' :: cs => (literalLength (.code 0 :: .text :: modes) cs).map (· + 2)
  | .text :: modes, _ :: cs => (literalLength (.text :: modes) cs).map (· + 1)
  | .code braces :: modes, '{' :: cs => (literalLength (.code (braces + 1) :: modes) cs).map (· + 1)
  | .code 0 :: modes, '}' :: cs => (literalLength modes cs).map (· + 1)
  | .code (braces + 1) :: modes, '}' :: cs => (literalLength (.code braces :: modes) cs).map (· + 1)
  | .code braces :: modes, '"' :: cs => (literalLength (.text :: .code braces :: modes) cs).map (· + 1)
  | .code braces :: modes, '/' :: '/' :: cs =>
    (literalLength (.comment :: .code braces :: modes) cs).map (· + 2)
  | .code braces :: modes, _ :: cs => (literalLength (.code braces :: modes) cs).map (· + 1)
  | .comment :: modes, c :: cs =>
    (literalLength (if c = '\n' then modes else .comment :: modes) cs).map (· + 1)

/-- A blank within a line. -/
def isLineBlank (c : Char) : Bool := c == ' ' || c == '\t' || c == '\r'

/-- The content of a body and how much of the body comes before it, if the body is
multi-line. -/
def multilineContent? (body : List Char) : Option (List Char × List Char) :=
  match body.dropWhile isLineBlank with
  | '\n' :: rest =>
    let content :=
      match rest.reverse.dropWhile isLineBlank with
      | [] => []
      | '\n' :: kept => kept.reverse
      | _ => rest
    some (body.takeWhile isLineBlank ++ ['\n'], content)
  | _ => none

/-- The length of the marker that a line begins with: blanks, a bar, and one space or the end
of the line. -/
def indentLength? (line : List Char) : Option Nat :=
  let blanks := (line.takeWhile fun c => c == ' ' || c == '\t').length
  match line.drop blanks with
  | ['|'] => some (blanks + 1)
  | '|' :: c :: _ =>
    if c == ' ' then some (blanks + 2)
    else if c == '\n' || c == '\r' then some (blanks + 1)
    else none
  | _ => none

def hexDigits? (digits : List Char) : Option Nat :=
  if digits.all fun c => (Radix.hex.digit? c).isSome then some (Radix.hex.positional digits) else none

/-- The character with this code, if it is one. -/
def charOfCode? (code : Nat) : Option Char :=
  if h : code.isValidChar then some (Char.ofNatAux code h) else none

/-- The part of a Unicode escape after the `u`: one to six hexadecimal digits in braces, or
exactly four. -/
def unicodeEscape? : List Char → Option (Char × Nat)
  | '{' :: rest =>
    let digits := rest.takeWhile (· != '}')
    if (rest.drop digits.length).isEmpty || digits.isEmpty || 6 < byteWidth digits then none
    else do
      let c ← charOfCode? (← hexDigits? digits)
      return (c, digits.length + 2)
  | rest =>
    if rest.length < 4 then none
    else do
      let c ← charOfCode? (← hexDigits? (rest.take 4))
      return (c, 4)

/-- What a backslash and the text after it stand for, and how many characters that takes after
the backslash; `none` if it is no escape. -/
def escape? : List Char → Option (Char × Nat)
  | '"' :: _ => some ('"', 1)
  | '\\' :: _ => some ('\\', 1)
  | '/' :: _ => some ('/', 1)
  | 'b' :: _ => some ('\x08', 1)
  | 'f' :: _ => some ('\x0c', 1)
  | 'n' :: _ => some ('\n', 1)
  | 'r' :: _ => some ('\r', 1)
  | 't' :: _ => some ('\t', 1)
  | '$' :: _ => some ('$', 1)
  | '0' :: _ => some ('\x00', 1)
  | 'u' :: rest => (unicodeEscape? rest).map fun (c, n) => (c, n + 1)
  | _ => none

inductive PartKind where
  | text
  /-- An escape with the character it stands for. -/
  | escape (value : Char)
  /-- A backslash that begins no escape; it takes the character after it as written. -/
  | badEscape (value : Char)
  | fragment (closed : Bool)
  | indent
deriving DecidableEq, Repr, Inhabited

/-- A part of a body with its characters as written. -/
structure Part where
  kind : PartKind
  raw : List Char
deriving DecidableEq, Repr, Inhabited

/-- How many characters pass before an escape, a fragment or a marked line. -/
def textLength (multiline : Bool) : List Char → Nat
  | [] => 0
  | '\\' :: _ => 0
  | '$' :: '{' :: _ => 0
  | c :: cs =>
    if c == '\n' && multiline && (indentLength? cs).isSome then 1 else textLength multiline cs + 1

/-- The part that a content begins with; `atLineStart` if a marker could stand here. -/
def firstPart (multiline atLineStart : Bool) (content : List Char) : Part :=
  match if atLineStart then indentLength? content else none with
  | some n => ⟨.indent, content.take n⟩
  | none =>
    match content with
    | '\\' :: rest =>
      match escape? rest, rest with
      | some (value, n), _ => ⟨.escape value, content.take (n + 1)⟩
      | none, [] => ⟨.badEscape '\\', content⟩
      | none, c :: _ => ⟨.badEscape c, content.take 2⟩
    | '$' :: '{' :: rest =>
      match literalLength [.code 0] rest with
      | some n => ⟨.fragment true, content.take (n + 2)⟩
      | none => ⟨.fragment false, content⟩
    | _ => ⟨.text, content.take (textLength multiline content)⟩

/-- Cuts at most `fuel` parts off a content. -/
def cutParts (multiline : Bool) : Nat → Bool → List Char → List Part
  | 0, _, _ => []
  | _ + 1, _, [] => []
  | fuel + 1, atLineStart, content =>
    let part := firstPart multiline atLineStart content
    part :: cutParts multiline fuel (multiline && part.kind == .text) (content.drop part.raw.length)

/-- The parts of a content, of which each takes at least one character. -/
def parts (multiline : Bool) (content : List Char) : List Part :=
  cutParts multiline content.length multiline content

/-- The text between the braces of a fragment. -/
def Part.inner (part : Part) : List Char :=
  let rest := part.raw.drop 2
  match part.kind with
  | .fragment true => rest.dropLast
  | _ => rest

/-! ## Nothing is lost -/

theorem indentLength?_pos {line : List Char} {n : Nat} (h : indentLength? line = some n) : 0 < n := by
  unfold indentLength? at h
  dsimp only at h
  split at h
  · have := Option.some.inj h
    omega
  · split at h
    · have := Option.some.inj h
      omega
    · split at h
      · have := Option.some.inj h
        omega
      · cases h
  · cases h

theorem textLength_pos (multiline : Bool) {c : Char} {cs : List Char} (hescape : c ≠ '\\')
    (hfragment : ∀ rest, c :: cs ≠ '$' :: '{' :: rest) : 0 < textLength multiline (c :: cs) := by
  unfold textLength
  split
  · contradiction
  · rename_i h
    exact absurd (List.cons.inj h).1 hescape
  · rename_i h
    exact absurd h (hfragment _)
  · rename_i h
    obtain ⟨rfl, rfl⟩ := List.cons.inj h
    split
    · exact Nat.one_pos
    · exact Nat.succ_pos _

/-- A part is what stands at the front of the content, and takes at least one character. -/
theorem raw_firstPart (multiline atLineStart : Bool) (c : Char) (cs : List Char) :
    (firstPart multiline atLineStart (c :: cs)).raw <+: c :: cs ∧
      0 < (firstPart multiline atLineStart (c :: cs)).raw.length := by
  unfold firstPart
  split
  · rename_i n h
    have hpos : 0 < n := by
      split at h
      · exact indentLength?_pos h
      · cases h
    refine ⟨List.take_prefix _ _, ?_⟩
    simp only [List.length_take, List.length_cons]
    omega
  · split
    · rename_i rest hcons
      obtain ⟨rfl, rfl⟩ := List.cons.inj hcons
      split
      · exact ⟨List.take_prefix _ _, by simp⟩
      · exact ⟨List.prefix_refl _, by simp⟩
      · exact ⟨List.take_prefix _ _, by simp⟩
    · split
      · exact ⟨List.take_prefix _ _, by simp⟩
      · exact ⟨List.prefix_refl _, by simp⟩
    · rename_i hescape hfragment
      have hpos : 0 < textLength multiline (c :: cs) :=
        textLength_pos multiline (fun h => hescape cs (h ▸ rfl)) (fun rest h => hfragment rest h)
      refine ⟨List.take_prefix _ _, ?_⟩
      simp only [List.length_take, List.length_cons]
      omega

theorem flatMap_raw_cutParts (multiline : Bool) (fuel : Nat) (atLineStart : Bool) (content : List Char)
    (h : content.length ≤ fuel) : (cutParts multiline fuel atLineStart content).flatMap (·.raw) = content := by
  induction fuel generalizing atLineStart content with
  | zero => simp [cutParts, List.length_eq_zero_iff.1 (Nat.le_zero.1 h)]
  | succ fuel ih =>
    cases content with
    | nil => rfl
    | cons c cs =>
      obtain ⟨hfront, hpos⟩ := raw_firstPart multiline atLineStart c cs
      have hdrop : ((c :: cs).drop (firstPart multiline atLineStart (c :: cs)).raw.length).length ≤ fuel := by
        simp only [List.length_drop, List.length_cons] at h ⊢
        omega
      simp only [cutParts, List.flatMap_cons]
      rw [ih _ _ hdrop]
      exact List.prefix_iff_eq_append.1 hfront

theorem flatMap_raw_parts (multiline : Bool) (content : List Char) :
    (parts multiline content).flatMap (·.raw) = content :=
  flatMap_raw_cutParts multiline _ _ _ (Nat.le_refl _)

end JuiceSyntax
