/-
  What a reading consumes. A state with its cursor further on is `skipped`; the kinds of the tokens ahead
  of a cursor say where it comes to (`Cursor.kinds_skip`), and whatever is read, what is consumed stood in
  front of what is left (`Grows.rest`).
-/
import JuiceSyntax.Proofs.Grammar.Growth
import JuiceSyntax.Proofs.Grammar.Wall

namespace JuiceSyntax

open Reader Grammar

/-! ## Kinds ahead -/

/-- No token of these kinds is the end of the tokens. -/
def Midway (kinds : List Kind) : Prop := ∀ kind ∈ kinds, kind.isDone = false

theorem Midway.nil : Midway [] := List.forall_mem_nil _

theorem Midway.cons {kind : Kind} {kinds : List Kind} (h : kind.isDone = false) (h' : Midway kinds) :
    Midway (kind :: kinds) := List.forall_mem_cons.2 ⟨h, h'⟩

theorem Midway.mark (mark : Mark) {kinds : List Kind} (h : Midway kinds) : Midway (.mark mark :: kinds) := .cons rfl h

theorem Midway.append {kinds kinds' : List Kind} (h : Midway kinds) (h' : Midway kinds') : Midway (kinds ++ kinds') :=
  List.forall_mem_append.2 ⟨h, h'⟩

/-- The kinds of the tokens from here on. -/
def Cursor.kinds (c : Cursor) : List Kind := c.rest.map Token.kind

section

variable {c : Cursor} {kind next : Kind} {kinds more : List Kind}

theorem Cursor.kind_of_kinds (h : c.kinds = kind :: more) : c.kind = kind := by
  obtain ⟨token, rest, hrest, rfl, -⟩ := List.map_eq_cons_iff.1 h
  exact Cursor.kind_of_rest hrest

theorem Cursor.peek_of_kinds (h : c.kinds = kind :: next :: more) : c.peek 1 = next := by
  obtain ⟨token, rest, hrest, -, htail⟩ := List.map_eq_cons_iff.1 h
  obtain ⟨second, rest', rfl, rfl, -⟩ := List.map_eq_cons_iff.1 htail
  rw [Cursor.peek, hrest]
  rfl

theorem Cursor.kinds_advance (h : c.kinds = kind :: more) (mid : kind.isDone = false) : c.advance.kinds = more := by
  obtain ⟨token, rest, hrest, rfl, htail⟩ := List.map_eq_cons_iff.1 h
  rw [Cursor.kinds, Cursor.rest_advance_of_rest hrest mid, htail]

theorem Cursor.kinds_skip (h : c.kinds = kinds ++ more) (midway : Midway kinds) :
    (c.skip kinds.length).kinds = more := by
  induction kinds generalizing c with
  | nil => exact h
  | cons kind kinds ih =>
    have hadvance : c.advance.kinds = kinds ++ more := Cursor.kinds_advance h (midway _ List.mem_cons_self)
    exact ih hadvance (List.forall_mem_cons.1 midway).2

theorem Cursor.length_kinds (c : Cursor) : c.kinds.length = c.left := by
  rw [Cursor.kinds, List.length_map, c.left_eq]

end

/-- The state with the cursor `n` tokens further on. -/
def State.skipped (s : State) (n : Nat) : State := { s with cursor := s.cursor.skip n }

theorem State.skipped_skipped (s : State) (m n : Nat) : (s.skipped m).skipped n = s.skipped (m + n) := by
  simp only [State.skipped, Cursor.skip_add]

section

variable {s t u : State} {kind : Kind}

theorem skipped_one {more : List Kind} (h : s.cursor.kinds = kind :: more) (mid : kind.isDone = false) :
    (s.skipped 1).cursor.kinds = more := Cursor.kinds_advance h mid

theorem Cursor.left_skip (c : Cursor) (n : Nat) : c.left ≤ (c.skip n).left + n := by
  induction n generalizing c with
  | zero => exact Nat.le_refl _
  | succ n ih =>
    have hskip : c.advance.left ≤ (c.skip (n + 1)).left + n := ih c.advance
    have hadvance : c.left ≤ c.advance.left + 1 := by
      cases hend : c.atEnd with
      | true =>
        rw [Cursor.advance_of_atEnd hend]
        omega
      | false => exact Nat.le_of_eq (Cursor.left_advance hend).symm
    omega

theorem Grows.skipped (s : State) (n : Nat) : Grows s (s.skipped n) := .skip s n

theorem kinds_skipped_of_kind {kind : Kind} (h : s.cursor.kind = kind) (mid : kind.isDone = false) :
    s.cursor.kinds = kind :: (s.skipped 1).cursor.kinds := by
  have hmid : s.cursor.atEnd = false := by rw [Cursor.atEnd, h, mid]
  rw [Cursor.kinds, Cursor.rest_of_mid hmid, List.map_cons, ← h]
  rfl

theorem kinds_skipped_of_isMark {mark : Mark} (h : s.cursor.kind.isMark mark = true) :
    s.cursor.kinds = .mark mark :: (s.skipped 1).cursor.kinds := kinds_skipped_of_kind (eq_of_isMark h) rfl

theorem Cursor.rest_eq_skip (c : Cursor) (n : Nat) : ∃ tokens, c.rest = tokens ++ (c.skip n).rest := by
  induction n generalizing c with
  | zero => exact ⟨[], rfl⟩
  | succ n ih =>
    obtain ⟨tokens, htokens⟩ := ih c.advance
    cases hend : c.atEnd with
    | true =>
      rw [Cursor.advance_of_atEnd hend] at htokens
      refine ⟨tokens, ?_⟩
      rwa [Cursor.skip, Cursor.advance_of_atEnd hend]
    | false => exact ⟨c.current :: tokens, (Cursor.rest_of_mid hend).trans (congrArg _ htokens)⟩

theorem Grows.rest (h : Grows s t) : ∃ tokens, s.cursor.rest = tokens ++ t.cursor.rest := by
  obtain ⟨n, hn⟩ := h.cursor
  rw [hn]
  exact s.cursor.rest_eq_skip n

theorem Grows.kinds (h : Grows s t) : ∃ kinds, s.cursor.kinds = kinds ++ t.cursor.kinds := by
  obtain ⟨tokens, htokens⟩ := h.rest
  exact ⟨tokens.map Token.kind, by rw [Cursor.kinds, Cursor.kinds, htokens, List.map_append]⟩

theorem Ending.ok_of_andThen {α β : Type} {ending : Ending α} {next : α → State → Ending β} {b : β}
    (h : Ending.andThen ending next = .ok b u) : ∃ a t, ending = .ok a t ∧ next a t = .ok b u := by
  cases ending with
  | ok a t => exact ⟨a, t, rfl, h⟩
  | error fault t => cases h

/-- A reader only goes onward. -/
theorem Composed.onward {setting : Setting} {n : Nat} {α : Type} {r : Reader α} (h : Composed (fun _ => True) r) {a : α}
    (hr : r (level setting n) s = .ok a t) : Grows s t := by
  have hgrows := h.grows inherited_true (level_grows setting n) s trivial
  rwa [hr] at hgrows

end

end JuiceSyntax
