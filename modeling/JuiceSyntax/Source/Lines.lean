/-
  Lines of a document. A line ends at a line feed; line and column count from one, and
  columns count bytes. A carriage return at the end of a line belongs to the line break.

  `join_breakLines`: the lines, put together with line feeds, are the text.
-/
import JuiceSyntax.Source.Bytes

namespace JuiceSyntax

/-- The parts of a text between its line feeds; there is always at least one. -/
def breakLines : List Char → List (List Char)
  | [] => [[]]
  | c :: cs =>
    match breakLines cs with
    | [] => [[c]]
    | line :: rest => if c = '\n' then [] :: line :: rest else (c :: line) :: rest

/-- The offsets at which lines begin, the first of them at `start`. -/
def lineStarts (start : Nat) : List (List Char) → List Nat
  | [] => []
  | line :: rest => start :: lineStarts (start + byteWidth line + 1) rest

/-- Without the carriage return at its end, if there is one. -/
def dropReturn (line : List Char) : List Char :=
  match line.getLast? with
  | some '\r' => line.dropLast
  | _ => line

/-- The lines of a document and where each begins. -/
structure LineMap where
  lines : List (List Char)
  starts : List Nat

namespace LineMap

def ofText (text : String) : LineMap :=
  let lines := breakLines text.toList
  ⟨lines, lineStarts 0 lines⟩

def count (m : LineMap) : Nat := m.lines.length

/-- Line and column of an offset: the last line that begins at or before it. -/
def position (m : LineMap) (offset : Nat) : Nat × Nat :=
  let before := m.starts.takeWhile (· ≤ offset)
  (before.length, offset - before.getLast?.getD 0 + 1)

/-- The text of a line by its number, without its line break. -/
def text? (m : LineMap) : Nat → Option String
  | 0 => none
  | n + 1 => (m.lines[n]?).map fun line => String.ofList (dropReturn line)

end LineMap

theorem breakLines_ne_nil (cs : List Char) : breakLines cs ≠ [] := by
  cases cs with
  | nil => simp [breakLines]
  | cons c cs =>
    unfold breakLines
    split
    · simp
    · split <;> simp

theorem join_breakLines (cs : List Char) : ['\n'].intercalate (breakLines cs) = cs := by
  induction cs with
  | nil => rfl
  | cons c cs ih =>
    unfold breakLines
    cases h : breakLines cs with
    | nil => exact absurd h (breakLines_ne_nil cs)
    | cons line rest =>
      rw [h] at ih
      by_cases hc : c = '\n'
      · subst hc
        simp only [if_true]
        rw [List.intercalate_cons_cons, ih]
        rfl
      · simp only [hc, if_false]
        cases rest with
        | nil => simpa [List.intercalate] using ih
        | cons r rs =>
          rw [List.intercalate_cons_cons] at ih ⊢
          simpa using ih

end JuiceSyntax
