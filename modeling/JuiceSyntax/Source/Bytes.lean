/-
  Byte offsets into text. A document is a list of characters, and positions in it count the
  bytes of its UTF-8 form; a cut is possible only between two characters.

  `dropBytes?_append`, `takeBytes?_append`: a cut at the width of an initial part gives back
  that part and what follows it.
-/
import JuiceSyntax.Source.Span

namespace JuiceSyntax

/-- The number of bytes that the characters take. -/
def byteWidth : List Char → Nat
  | [] => 0
  | c :: cs => c.utf8Size + byteWidth cs

@[simp] theorem byteWidth_nil : byteWidth [] = 0 := rfl

@[simp] theorem byteWidth_cons (c : Char) (cs : List Char) :
    byteWidth (c :: cs) = c.utf8Size + byteWidth cs := rfl

@[simp] theorem byteWidth_append (as bs : List Char) :
    byteWidth (as ++ bs) = byteWidth as + byteWidth bs := by
  induction as with
  | nil => simp
  | cons a as ih => simp [ih, Nat.add_assoc]

/-- What follows the first `n` bytes; `none` if that is not a place between characters. -/
def dropBytes? : Nat → List Char → Option (List Char)
  | 0, cs => some cs
  | _ + 1, [] => none
  | n + 1, c :: cs => if c.utf8Size ≤ n + 1 then dropBytes? (n + 1 - c.utf8Size) cs else none

/-- The first `n` bytes; `none` if that is not a place between characters. -/
def takeBytes? : Nat → List Char → Option (List Char)
  | 0, _ => some []
  | _ + 1, [] => none
  | n + 1, c :: cs =>
    if c.utf8Size ≤ n + 1 then (takeBytes? (n + 1 - c.utf8Size) cs).map (c :: ·) else none

/-- The characters of a span. -/
def slice? (text : List Char) (span : Span) : Option (List Char) :=
  if span.start ≤ span.stop then
    (dropBytes? span.start text).bind (takeBytes? span.size)
  else none

theorem dropBytes?_append (as bs : List Char) : dropBytes? (byteWidth as) (as ++ bs) = some bs := by
  induction as with
  | nil => simp [dropBytes?]
  | cons a as ih =>
    have hpos : 0 < a.utf8Size := Char.utf8Size_pos a
    obtain ⟨n, hn⟩ : ∃ n, a.utf8Size + byteWidth as = n + 1 := ⟨a.utf8Size + byteWidth as - 1, by omega⟩
    have hle : a.utf8Size ≤ n + 1 := by omega
    have hsub : n + 1 - a.utf8Size = byteWidth as := by omega
    simp [hn, dropBytes?, hle, hsub, ih]

theorem takeBytes?_append (as bs : List Char) : takeBytes? (byteWidth as) (as ++ bs) = some as := by
  induction as with
  | nil => simp [takeBytes?]
  | cons a as ih =>
    have hpos : 0 < a.utf8Size := Char.utf8Size_pos a
    obtain ⟨n, hn⟩ : ∃ n, a.utf8Size + byteWidth as = n + 1 := ⟨a.utf8Size + byteWidth as - 1, by omega⟩
    have hle : a.utf8Size ≤ n + 1 := by omega
    have hsub : n + 1 - a.utf8Size = byteWidth as := by omega
    simp [hn, takeBytes?, hle, hsub, ih]

/-- The span of a middle part reads as that part. -/
theorem slice?_middle (as bs cs : List Char) :
    slice? (as ++ bs ++ cs) ⟨byteWidth as, byteWidth as + byteWidth bs⟩ = some bs := by
  simp [slice?, Span.size, dropBytes?_append, takeBytes?_append]

end JuiceSyntax
