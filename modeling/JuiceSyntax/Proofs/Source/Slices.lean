/-
  Slices of a text that is part of another one. What follows a text does not change its slices
  (`slice?_append`), and what stands before it only moves them (`slice?_behind`).
-/
import JuiceSyntax.Proofs.Token.Moving

namespace JuiceSyntax

section

variable {n : Nat} {text : List Char}

theorem takeBytes?_left (more : List Char) (h : n ≤ byteWidth text) : takeBytes? n (text ++ more) = takeBytes? n text := by
  induction text generalizing n with
  | nil =>
    obtain rfl : n = 0 := Nat.le_zero.1 h
    simp [takeBytes?]
  | cons c cs ih =>
    cases n with
    | zero => simp [takeBytes?]
    | succ n =>
      rw [byteWidth_cons] at h
      rw [List.cons_append, takeBytes?, takeBytes?, ih (by omega)]

/-- A drop within a text leaves the rest of that, which is as much shorter. -/
theorem dropBytes?_left (more : List Char) (h : n ≤ byteWidth text) :
    dropBytes? n (text ++ more) = (dropBytes? n text).map (· ++ more) := by
  induction text generalizing n with
  | nil =>
    obtain rfl : n = 0 := Nat.le_zero.1 h
    simp [dropBytes?]
  | cons c cs ih =>
    cases n with
    | zero => simp [dropBytes?]
    | succ n =>
      rw [byteWidth_cons] at h
      rw [List.cons_append, dropBytes?, dropBytes?, ih (by omega)]
      split <;> rfl

theorem byteWidth_dropBytes? {rest : List Char} (h : dropBytes? n text = some rest) : n + byteWidth rest = byteWidth text := by
  induction text generalizing n with
  | nil =>
    cases n with
    | zero => cases h; rfl
    | succ n => cases h
  | cons c cs ih =>
    cases n with
    | zero =>
      cases h
      exact Nat.zero_add _
    | succ n =>
      rw [dropBytes?] at h
      split at h
      · have := ih h
        rw [byteWidth_cons]
        omega
      · cases h

theorem dropBytes?_behind (before text : List Char) (n : Nat) :
    dropBytes? (byteWidth before + n) (before ++ text) = dropBytes? n text := by
  induction before with
  | nil => rw [byteWidth_nil, Nat.zero_add, List.nil_append]
  | cons c before ih =>
    have hpos : 0 < c.utf8Size := Char.utf8Size_pos c
    obtain ⟨k, hk⟩ : ∃ k, c.utf8Size + byteWidth before + n = k + 1 := ⟨c.utf8Size + byteWidth before + n - 1, by omega⟩
    have hle : c.utf8Size ≤ k + 1 := by omega
    have hsub : k + 1 - c.utf8Size = byteWidth before + n := by omega
    rw [byteWidth_cons, hk, List.cons_append, dropBytes?, if_pos hle, hsub, ih]

end

theorem slice?_append {text : List Char} {span : Span} (more : List Char) (h : span.stop ≤ byteWidth text) :
    slice? (text ++ more) span = slice? text span := by
  unfold slice?
  split
  · rename_i hle
    rw [dropBytes?_left more (Nat.le_trans hle h)]
    cases hdrop : dropBytes? span.start text with
    | none => rfl
    | some rest =>
      have hwidth := byteWidth_dropBytes? hdrop
      exact takeBytes?_left more (by rw [Span.size]; omega)
  · rfl

theorem slice?_behind (before text : List Char) (span : Span) :
    slice? (before ++ text) (span.moved (byteWidth before + ·)) = slice? text span := by
  have hsize : (span.moved (byteWidth before + ·)).size = span.size := by
    simp only [Span.size, Span.moved]
    omega
  unfold slice?
  rw [hsize]
  simp only [Span.moved, dropBytes?_behind, Nat.add_le_add_iff_left]

/-- Within a text a slice does not see that offsets behind it are moved to its end. -/
theorem slice?_min {text : List Char} {span : Span} (more : List Char) (h : span.stop < byteWidth text) :
    slice? text (span.moved (min · (byteWidth text))) = slice? (text ++ more) span := by
  rw [slice?_append more (Nat.le_of_lt h)]
  have hstop : min span.stop (byteWidth text) = span.stop := Nat.min_eq_left (Nat.le_of_lt h)
  obtain hlt | hle := Nat.lt_or_ge span.stop span.start
  · have hbehind : ¬min span.start (byteWidth text) ≤ min span.stop (byteWidth text) := by omega
    rw [slice?, slice?, if_neg (Nat.not_le_of_gt hlt)]
    exact if_neg hbehind
  · rw [Span.moved, hstop, Nat.min_eq_left (by omega)]

end JuiceSyntax
