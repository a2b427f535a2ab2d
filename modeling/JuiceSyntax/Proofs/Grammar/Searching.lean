/-
  The searches of the grammar, turn by turn: for a place where reading can resume, for the end of a group, and
  for the brace that closes a macro body. A turn looks at one token with a count of the open braces, and either
  ends the search or goes on behind that token.

  `Search.turn_before`: a search only goes on further on in the tokens. `Search.turns_eq`: as many turns as there
  are tokens left and one more end it, whatever would follow them, and it has passed as many tokens as its
  length says.
-/
import JuiceSyntax.Proofs.Grammar.Progress

namespace JuiceSyntax

/-! ## Further on -/

/-- Further on in the same tokens. -/
structure Cursor.Before (c c' : Cursor) : Prop where
  skips : ∃ n, c' = c.skip n
  pos : c.pos < c'.pos

namespace Cursor.Before

variable {c c' c'' : Cursor}

theorem of_left (skips : ∃ n, c' = c.skip n) (h : c'.left < c.left) : c.Before c' := by
  refine ⟨skips, ?_⟩
  obtain ⟨n, rfl⟩ := skips
  have := c.pos_add_left_skip n
  omega

theorem left (h : c.Before c') : c'.left < c.left := by
  obtain ⟨⟨n, rfl⟩, hpos⟩ := h
  have := c.pos_add_left_skip n
  omega

theorem advance (h : c.atEnd = false) : c.Before c.advance :=
  ⟨⟨1, rfl⟩, by have := (Cursor.advance_of_mid h).1; omega⟩

/-- What is read first only goes forward. -/
theorem after (h : c'.Before c'') (h' : ∃ n, c' = c.skip n) : c.Before c'' := by
  have hleft := h.left
  obtain ⟨⟨m, rfl⟩, -⟩ := h
  obtain ⟨n, rfl⟩ := h'
  exact .of_left ⟨n + m, (c.skip_add n m).symm⟩ (Nat.lt_of_lt_of_le hleft (c.left_skip_le n))

/-- What is read next only goes forward. -/
theorem onward (h : c.Before c') (h' : ∃ n, c'' = c'.skip n) : c.Before c'' := by
  have hleft := h.left
  obtain ⟨⟨m, rfl⟩, -⟩ := h
  obtain ⟨n, rfl⟩ := h'
  exact .of_left ⟨m + n, (c.skip_add m n).symm⟩ (Nat.lt_of_le_of_lt (Cursor.left_skip_le _ n) hleft)

end Cursor.Before

/-! ## Turns -/

inductive Search where
  /-- For a place where reading can resume. -/
  | resume (resume : Resume)
  /-- For the end of the group that begins here. -/
  | group
  /-- For the brace that closes the group around. -/
  | inner

/-- What a search makes of a token: it ends before it, or behind it, or goes on behind it with this count of
open braces. -/
inductive Glance where
  | here
  | behind
  | on (depth : Nat)

namespace Search

/-- What the search makes of a closing brace, with this many open. -/
def closing : Search → Nat → Glance
  | .resume r, 0 => if r.atClose then .here else .on 0
  | .resume r, 1 => if r.afterGroup then .behind else .on 0
  | .resume _, depth + 2 => .on (depth + 1)
  | .group, depth => if depth ≤ 1 then .behind else .on (depth - 1)
  | .inner, 0 => .here
  | .inner, depth + 1 => .on depth

/-- A token other than a brace ends the search. -/
def endsAt : Search → Nat → Cursor → Bool
  | .resume r, depth, c => depth == 0 && r.starts c.kind (c.peek 1)
  | .group, _, _ | .inner, _, _ => false

def turn (search : Search) (depth : Nat) (c : Cursor) : Glance :=
  if c.atEnd then .here
  else if c.kind.isMark .lBrace then .on (depth + 1)
  else if c.kind.isMark .rBrace then search.closing depth
  else if search.endsAt depth c then .here
  else .on depth

/-- At most `n` turns, and after them whatever `otherwise` does. -/
def turns (search : Search) (otherwise : Nat → Cursor → Cursor) : Nat → Nat → Cursor → Cursor
  | 0, depth, c => otherwise depth c
  | n + 1, depth, c =>
    match search.turn depth c with
    | .here => c
    | .behind => c.advance
    | .on depth' => search.turns otherwise n depth' c.advance

/-- How many tokens are passed in all. -/
def length : Search → Nat → List Token → Nat
  | .resume r => r.distance
  | .group => groupLength
  | .inner => innerLength

section

variable (search : Search) (depth : Nat) {token : Token} (rest : List Token)

theorem length_nil : search.length depth [] = 0 := by cases search <;> rfl

theorem length_done (h : token.kind.isDone = true) : search.length depth (token :: rest) = 0 := by
  cases search <;> exact if_pos h

theorem length_opening (h : token.kind.isMark .lBrace = true) :
    search.length depth (token :: rest) = search.length (depth + 1) rest + 1 := by
  cases search <;> simp only [length, Resume.distance, groupLength, innerLength, isDone_of_isMark h, h,
    Bool.false_eq_true, if_false, if_true]

theorem length_closing (h : token.kind.isMark .rBrace = true) :
    search.length depth (token :: rest) =
      match search.closing depth with
      | .here => 0
      | .behind => 1
      | .on depth' => search.length depth' rest + 1 := by
  have hl := isMark_of_ne h .lBrace (by decide)
  cases search with
  | resume r =>
    simp only [length, Resume.distance, isDone_of_isMark h, hl, h, Bool.false_eq_true, if_false, if_true]
    obtain _ | _ | depth := depth
    · cases hr : r.atClose <;> simp [closing, hr]
    · cases hr : r.afterGroup <;> simp [closing, hr]
    · rfl
  | group =>
    simp only [length, groupLength, isDone_of_isMark h, hl, h, Bool.false_eq_true, if_false, if_true]
    by_cases hone : depth ≤ 1 <;> simp [closing, hone]
  | inner =>
    simp only [length, innerLength, isDone_of_isMark h, hl, h, Bool.false_eq_true, if_false, if_true]
    cases depth <;> rfl

theorem length_other (hdone : token.kind.isDone = false) (hl : token.kind.isMark .lBrace = false)
    (hr : token.kind.isMark .rBrace = false) {c : Cursor} (hc : c.rest = token :: rest) :
    search.length depth (token :: rest) =
      if search.endsAt depth c then 0 else search.length depth rest + 1 := by
  have hkind : c.kind = token.kind := by simp [Cursor.kind, Cursor.current, hc]
  have hpeek : c.peek 1 = rest.head?.elim .done Token.kind := by simp [Cursor.peek, hc, List.head?_eq_getElem?]
  cases search <;> simp only [length, Resume.distance, groupLength, innerLength, endsAt, hdone, hl, hr, hkind, hpeek,
    Bool.false_eq_true, if_false]

end

/-- What a turn leaves of the length of the search. -/
theorem length_eq (search : Search) (depth : Nat) (c : Cursor) :
    search.length depth c.rest =
      match search.turn depth c with
      | .here => 0
      | .behind => 1
      | .on depth' => search.length depth' c.advance.rest + 1 := by
  unfold turn
  cases hrest : c.rest with
  | nil =>
    have hend : c.atEnd = true := by simp [Cursor.atEnd, Cursor.kind, Cursor.current, hrest, Kind.isDone]
    rw [if_pos hend, length_nil]
  | cons token rest =>
    have hkind : c.kind = token.kind := by simp [Cursor.kind, Cursor.current, hrest]
    rw [Cursor.rest_advance, Cursor.atEnd, hkind, hrest]
    cases hdone : token.kind.isDone with
    | true => exact length_done search depth rest hdone
    | false =>
      cases hl : token.kind.isMark .lBrace with
      | true => exact length_opening search depth rest hl
      | false =>
        cases hr : token.kind.isMark .rBrace with
        | true => exact length_closing search depth rest hr
        | false =>
          rw [length_other search depth rest hdone hl hr hrest]
          cases search.endsAt depth c <;> rfl

/-- A search does not go on from the end of the tokens. -/
theorem turn_before {search : Search} {depth depth' : Nat} {c : Cursor} (h : search.turn depth c = .on depth') :
    c.Before c.advance := by
  cases hend : c.atEnd with
  | true =>
    rw [turn, if_pos hend] at h
    cases h
  | false => exact .advance hend

theorem turns_eq (search : Search) (otherwise : Nat → Cursor → Cursor) {n depth : Nat} {c : Cursor} (h : c.left < n) :
    search.turns otherwise n depth c = c.skip (search.length depth c.rest) := by
  induction n generalizing depth c with
  | zero => exact absurd h (Nat.not_lt_zero _)
  | succ n ih =>
    rw [turns, length_eq]
    cases hturn : search.turn depth c with
    | here => rfl
    | behind => rfl
    | on depth' =>
      have := (turn_before hturn).left
      exact ih (by omega)

end Search

end JuiceSyntax
