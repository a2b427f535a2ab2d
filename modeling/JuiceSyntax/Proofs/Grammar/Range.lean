/-
  Ranges of tokens. `Ranged`: each token has some text of its own and ends before the next one
  begins. `Cursor.Passes c range d`: a reading goes from one place to another by consuming a range,
  as it does wherever it goes forward (`Cursor.passes_skip`).
-/
import JuiceSyntax.Proofs.Grammar.Wall

namespace JuiceSyntax

/-! ## Tokens one after another -/

/-- Each token has some text of its own and ends before the next one begins. -/
structure Ranged (tokens : List Token) : Prop where
  wide : ∀ token ∈ tokens, token.span.start < token.span.stop
  apart : tokens.Pairwise fun token later => token.span.stop ≤ later.span.start

/-- The tokens before the end lie one after another. -/
theorem Laid.ranged {lo hi : Nat} {tokens : List Token} (h : Laid lo tokens hi) :
    ∃ body last, tokens = body ++ [last] ∧ last.kind.isDone = true ∧ Undone body ∧ Ranged body ∧
      ∀ token ∈ body, lo ≤ token.span.start ∧ token.span.stop ≤ hi := by
  induction h with
  | @done lo hi span after before =>
    exact ⟨[], ⟨.done, span⟩, rfl, rfl, fun _ hmem => absurd hmem List.not_mem_nil,
      ⟨fun _ hmem => absurd hmem List.not_mem_nil, .nil⟩, fun _ hmem => absurd hmem List.not_mem_nil⟩
  | @cons lo hi token rest mid after wide inner following _ ih =>
    obtain ⟨body, last, rfl, hdone, hundone, hranged, hlater⟩ := ih
    refine ⟨token :: body, last, rfl, hdone, List.forall_mem_cons.2 ⟨mid, hundone⟩,
      ⟨List.forall_mem_cons.2 ⟨wide, hranged.wide⟩, .cons (fun later hmem => (hlater later hmem).1) hranged.apart⟩,
      List.forall_mem_cons.2 ⟨⟨after, following.le⟩, ?_⟩⟩
    intro later hmem
    have := hlater later hmem
    omega

namespace Ranged

variable {tokens range : List Token}

theorem sublist (h : Ranged tokens) (hsub : range.Sublist tokens) : Ranged range :=
  ⟨fun token hmem => h.wide token (hsub.subset hmem), h.apart.sublist hsub⟩

theorem start_le (h : Ranged tokens) {first : Token} (hfirst : tokens.head? = some first) :
    ∀ token ∈ tokens, first.span.start ≤ token.span.start := by
  obtain ⟨rest, rfl⟩ := List.head?_eq_some_iff.1 hfirst
  intro token hmem
  obtain rfl | hmem := List.mem_cons.1 hmem
  · exact Nat.le_refl _
  · have := (List.pairwise_cons.1 h.apart).1 token hmem
    have := h.wide first List.mem_cons_self
    omega

theorem le_stop (h : Ranged tokens) {last : Token} (hlast : tokens.getLast? = some last) :
    ∀ token ∈ tokens, token.span.stop ≤ last.span.stop := by
  obtain ⟨front, rfl⟩ := List.getLast?_eq_some_iff.1 hlast
  intro token hmem
  obtain hmem | hmem := List.mem_append.1 hmem
  · have := (List.pairwise_append.1 h.apart).2.2 token hmem last List.mem_cons_self
    have := h.wide last (List.mem_append_right _ List.mem_cons_self)
    omega
  · obtain rfl := List.mem_singleton.1 hmem
    exact Nat.le_refl _

end Ranged

/-! ## Ranges that a reading takes -/

/-- From `c` to `d` these tokens are consumed. -/
structure Cursor.Passes (c : Cursor) (range : List Token) (d : Cursor) : Prop where
  rest : c.rest = range ++ d.rest
  undone : Undone range
  last : d.last = (range.getLast?.map Token.span).or c.last

namespace Cursor.Passes

variable {c d : Cursor} {range : List Token}

theorem refl (c : Cursor) : c.Passes [] c := ⟨rfl, fun _ hmem => absurd hmem List.not_mem_nil, rfl⟩

theorem cons (mid : c.atEnd = false) (h : c.advance.Passes range d) : c.Passes (c.current :: range) d := by
  obtain ⟨-, hlast, hrest⟩ := Cursor.advance_of_mid mid
  refine ⟨?_, List.forall_mem_cons.2 ⟨mid, h.undone⟩, ?_⟩
  · rw [List.cons_append, ← h.rest, hrest]
    cases htokens : c.rest with
    | nil => simp [Cursor.atEnd, Cursor.kind, Cursor.current, htokens, Kind.isDone] at mid
    | cons token rest => simp [Cursor.current, htokens]
  · rw [h.last, hlast, List.getLast?_cons]
    cases range.getLast? <;> rfl

/-- The span from the start of the range to the last token consumed. -/
theorem cover_previous (h : c.Passes range d) {last : Token} (hlast : range.getLast? = some last) :
    ∃ first, range.head? = some first ∧ c.span.cover d.previous = first.span.cover last.span := by
  obtain ⟨first, rest, rfl⟩ := List.exists_cons_of_ne_nil (l := range) (by rintro rfl; cases hlast)
  refine ⟨first, rfl, ?_⟩
  rw [Cursor.previous, h.last, hlast, Cursor.span_of_rest h.rest]
  rfl

/-- The end of the tokens is not consumed. -/
theorem split (h : c.Passes range d) {after : List Token} {last : Token} (hrest : c.rest = after ++ [last])
    (hdone : last.kind.isDone = true) : ∃ rest, after = range ++ rest ∧ d.rest = rest ++ [last] := by
  obtain ⟨more, hrange, hlast⟩ | ⟨rest, hafter, hleft⟩ := List.append_eq_append_iff.1 (hrest.symm.trans h.rest)
  · cases more with
    | nil => exact ⟨[], by rw [List.append_nil] at hrange ⊢; exact hrange.symm, hlast.symm⟩
    | cons other more =>
      obtain ⟨rfl, -⟩ := List.cons.inj hlast
      have hmid := h.undone last (hrange ▸ List.mem_append_right _ List.mem_cons_self)
      exact absurd (hdone.symm.trans hmid) (by decide)
  · exact ⟨rest, hafter, hleft⟩

end Cursor.Passes

theorem Cursor.passes_skip (c : Cursor) (n : Nat) : ∃ range, c.Passes range (c.skip n) := by
  induction n generalizing c with
  | zero => exact ⟨[], .refl c⟩
  | succ n ih =>
    obtain ⟨range, h⟩ := ih c.advance
    cases hend : c.atEnd with
    | true =>
      rw [Cursor.advance_of_atEnd hend] at h
      exact ⟨range, by rw [Cursor.skip, Cursor.advance_of_atEnd hend]; exact h⟩
    | false => exact ⟨c.current :: range, h.cons hend⟩

end JuiceSyntax
