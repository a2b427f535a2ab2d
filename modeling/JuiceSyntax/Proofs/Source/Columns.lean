/-
  Lines and columns by a search in the offsets at which lines begin. The search finds the offset among them, or
  where it would have to stand; the line is looked up by its number, and what stands before the offset in it is
  counted down from the offset. The look-up fails (`none`) beyond the last line, and the count below zero.

  `LineMap.position?_eq`: neither ever fails, and the line is the last that begins at or before the offset. It
  rests on the order of the offsets, of which the first is zero (`pairwise_lineStarts`).
-/
import JuiceSyntax.Source.Lines
import JuiceSyntax.Proofs.Source.Offsets

namespace JuiceSyntax

/-- What is left of a number; it fails where more is taken than there is. -/
def minus? (n m : Nat) : Option Nat := if m ≤ n then some (n - m) else none

namespace LineMap

/-- The number of the line of an offset, counted from zero. -/
def search (m : LineMap) (offset : Nat) : Nat :=
  match m.starts.idxOf? offset with
  | some line => line
  -- This subtraction stops at zero by itself.
  | none => (m.starts.takeWhile (· < offset)).length - 1

/-- Line and column of an offset. -/
def position? (m : LineMap) (offset : Nat) : Option (Nat × Nat) := do
  let start ← m.starts[m.search offset]?
  let passed ← minus? offset start
  return (m.search offset + 1, passed + 1)

end LineMap

/-! ## The order of lines -/

theorem le_of_mem_lineStarts {start : Nat} {lines : List (List Char)} {offset : Nat} (h : offset ∈ lineStarts start lines) :
    start ≤ offset := by
  induction lines generalizing start with
  | nil => cases h
  | cons line rest ih =>
    obtain rfl | hmem := List.mem_cons.1 h
    · exact Nat.le_refl _
    · have := ih hmem
      omega

theorem pairwise_lineStarts (start : Nat) (lines : List (List Char)) : (lineStarts start lines).Pairwise (· < ·) := by
  induction lines generalizing start with
  | nil => exact .nil
  | cons line rest ih =>
    refine .cons (fun offset hmem => ?_) (ih _)
    have := le_of_mem_lineStarts hmem
    omega

theorem head?_lineStarts (text : List Char) : (lineStarts 0 (breakLines text)).head? = some 0 := by
  obtain ⟨line, rest, hlines⟩ := List.exists_cons_of_ne_nil (breakLines_ne_nil text)
  rw [hlines]
  rfl

/-- Of offsets in order, the last that is not beyond another offset. -/
theorem exists_last_le {start offset : Nat} {rest : List Nat} (hsorted : (start :: rest).Pairwise (· < ·))
    (h : start ≤ offset) :
    ∃ before last after, start :: rest = before ++ last :: after ∧ (∀ earlier ∈ before, earlier < last) ∧ last ≤ offset ∧
      ∀ later ∈ after, offset < later := by
  induction rest generalizing start with
  | nil => exact ⟨[], start, [], rfl, nofun, h, nofun⟩
  | cons second rest ih =>
    obtain ⟨hfirst, hrest⟩ := List.pairwise_cons.1 hsorted
    by_cases hsecond : second ≤ offset
    · obtain ⟨before, last, after, hsplit, hbefore, hlast, hafter⟩ := ih hrest hsecond
      refine ⟨start :: before, last, after, by rw [hsplit]; rfl, ?_, hlast, hafter⟩
      refine List.forall_mem_cons.2 ⟨hfirst last ?_, hbefore⟩
      rw [hsplit]
      exact List.mem_append_right _ List.mem_cons_self
    · refine ⟨[], start, second :: rest, rfl, nofun, h, List.forall_mem_cons.2 ⟨by omega, fun later hmem => ?_⟩⟩
      have := (List.pairwise_cons.1 hrest).1 later hmem
      omega

theorem takeWhile_split {p : Nat → Bool} {before after : List Nat} {last : Nat} (hbefore : ∀ earlier ∈ before, p earlier = true)
    (hlast : p last = true) (hafter : ∀ later ∈ after, p later = false) :
    (before ++ last :: after).takeWhile p = before ++ [last] := by
  have hstopped : after.takeWhile p = [] := by
    cases after with
    | nil => rfl
    | cons later after => rw [List.takeWhile_cons, if_neg (by simp [hafter later List.mem_cons_self])]
  rw [List.takeWhile_append_of_pos hbefore, List.takeWhile_cons, if_pos hlast, hstopped]

/-- The offsets that are not beyond end with the last such one. -/
theorem takeWhile_le_split {before after : List Nat} {last offset : Nat} (hbefore : ∀ earlier ∈ before, earlier < last)
    (hlast : last ≤ offset) (hafter : ∀ later ∈ after, offset < later) :
    (before ++ last :: after).takeWhile (· ≤ offset) = before ++ [last] := by
  refine takeWhile_split (fun earlier hmem => decide_eq_true ?_) (decide_eq_true hlast) fun later hmem => ?_
  · have := hbefore earlier hmem
    omega
  · have := hafter later hmem
    exact decide_eq_false (by omega)

/-- The search finds the line of the last offset that is not beyond. -/
theorem LineMap.search_split {lines : List (List Char)} {before after : List Nat} {last offset : Nat}
    (hbefore : ∀ earlier ∈ before, earlier < last) (hlast : last ≤ offset) (hafter : ∀ later ∈ after, offset < later) :
    LineMap.search ⟨lines, before ++ last :: after⟩ offset = before.length := by
  have hearlier : ∀ earlier ∈ before, earlier < offset := fun earlier hmem => by
    have := hbefore earlier hmem
    omega
  obtain rfl | hlt := Nat.eq_or_lt_of_le hlast
  · have hfound : (before ++ last :: after).idxOf? last = some before.length := by
      rw [List.idxOf?_eq_some_iff]
      refine ⟨by simp, by simp, fun j hj => ?_⟩
      rw [List.getElem_append_left hj]
      exact Nat.ne_of_lt (hbefore _ (List.getElem_mem hj))
    simp only [search, hfound]
  · have hmissing : (before ++ last :: after).idxOf? offset = none := by
      rw [List.idxOf?_eq_none_iff]
      intro hmem
      obtain hmem | hmem := List.mem_append.1 hmem
      · exact Nat.lt_irrefl _ (hearlier _ hmem)
      · obtain heq | hmem := List.mem_cons.1 hmem
        · omega
        · exact Nat.lt_irrefl _ (hafter _ hmem)
    have hpassed : (before ++ last :: after).takeWhile (· < offset) = before ++ [last] := by
      refine takeWhile_split (fun earlier hmem => decide_eq_true (hearlier earlier hmem)) (decide_eq_true hlt) fun later hmem => ?_
      have := hafter later hmem
      exact decide_eq_false (by omega)
    simp [search, hmissing, hpassed]

/-- The look-up of a line and the count of its column never fail. -/
theorem LineMap.position?_eq (text : String) (offset : Nat) :
    (LineMap.ofText text).position? offset = some ((LineMap.ofText text).position offset) := by
  obtain ⟨rest, hstarts⟩ := List.head?_eq_some_iff.1 (head?_lineStarts text.toList)
  have hsorted := pairwise_lineStarts 0 (breakLines text.toList)
  rw [hstarts] at hsorted
  obtain ⟨before, last, after, hsplit, hbefore, hlast, hafter⟩ := exists_last_le hsorted (Nat.zero_le offset)
  have hmap : LineMap.ofText text = ⟨breakLines text.toList, before ++ last :: after⟩ := by
    rw [← hsplit, ← hstarts]
    rfl
  rw [hmap, position?, search_split hbefore hlast hafter, position, takeWhile_le_split hbefore hlast hafter]
  simp [minus?, hlast]

end JuiceSyntax
