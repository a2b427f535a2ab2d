/-
  Reading always finishes, over every token list that ends or is empty, with all options.

  `reading_finishes`: every turn of a search and of a loop takes a token or ends it, so that as many turns as there
  are tokens left end it whatever would follow them; and every reader has a run in which the grammar is entered
  again only through the counter for the nesting, which is at the end where it was at the beginning.
-/
import JuiceSyntax.Proofs.Grammar.Advancing
import JuiceSyntax.Proofs.Grammar.Running

namespace JuiceSyntax

open Reader Grammar

/-- The end of the tokens alone, which an empty list reads as. -/
def endOnly : List Token := [⟨.done, .point 0⟩]

theorem readItems_nil (setting : Setting) : readItems setting [] = readItems setting endOnly := rfl

theorem expr_endOnly (setting : Setting) (n : Nat) :
    ∃ fault, ∀ tokens, tokens = [] ∨ tokens = endOnly →
      (level setting n).expr .value (.ofTokens tokens) = .error fault (.ofTokens tokens) := by
  cases n with
  | zero => exact ⟨_, by rintro _ (rfl | rfl) <;> rfl⟩
  | succ n => exact ⟨_, by rintro _ (rfl | rfl) <;> rfl⟩

/-- Of where the cursor stands only the span shows in what is recorded. -/
theorem withFault_cursor (options : Options) (fault : Fault) (s : State) {c : Cursor} (h : c.span = s.cursor.span) :
    { s with cursor := c }.withFault options fault = { s.withFault options fault with cursor := c } := by
  unfold State.withFault
  dsimp only
  rw [h]
  split
  · rfl
  split
  · rfl
  split
  · rfl
  · rfl

theorem readExpr_nil (setting : Setting) : readExpr setting [] = readExpr setting endOnly := by
  obtain ⟨fault, h⟩ := expr_endOnly setting setting.options.maxDepth
  have hcursor : State.ofTokens endOnly = { State.ofTokens [] with cursor := .ofTokens endOnly } := rfl
  unfold readExpr Reader.run
  rw [wholeExpr_apply, wholeExpr_apply, h [] (.inl rfl), h endOnly (.inr rfl), hcursor]
  dsimp only
  rw [withFault_cursor _ _ (.ofTokens []) (c := .ofTokens endOnly) rfl]

/-- What makes a reading finish. -/
structure Finishes (setting : Setting) : Prop where
  /-- A search goes on only further on in the tokens. -/
  search_before : ∀ (search : Search) (depth depth' : Nat) (c : Cursor),
    search.turn depth c = .on depth' → c.Before c.advance
  /-- One turn more than there are tokens left ends a search, whatever would follow. -/
  search_ends : ∀ (search : Search) (otherwise : Nat → Cursor → Cursor) (n depth : Nat) (c : Cursor),
    c.left < n → search.turns otherwise n depth c = c.skip (search.length depth c.rest)
  /-- A loop goes on only further on in the tokens, or, before their end, where its next turn ends it. -/
  loop_before : ∀ (n : Nat) {β γ : Type} (loop : Repetition β γ) (b b' : β) (f : γ → γ) (s t : State),
    loop.step b (level setting n) s = .ok (.on b' f) t →
      s.cursor.Before t.cursor ∨
        s.cursor.atEnd = false ∧ (∃ k, t.cursor = s.cursor.skip k) ∧ ∃ c, loop.step b' (level setting n) t = .ok (.ends c) t
  /-- As many turns as there are tokens left end a loop, whatever would follow. -/
  loop_ends : ∀ (n : Nat) {β γ : Type} (loop : Repetition β γ) (otherwise : β → Reader γ) (k : Nat) (b : β) (s : State),
    EndsDone s.cursor.rest → s.cursor.left ≤ k →
      loop.turns otherwise k b (level setting n) s = loop.reader b (level setting n) s
  /-- What a reader leaves of tokens that end are tokens that end. -/
  ended : ∀ (n : Nat) {α : Type} (r : Reader α) (s : State), Composed (fun _ => True) r → EndsDone s.cursor.rest →
    EndsDone (Ending.state (r (level setting n) s)).cursor.rest
  /-- No tokens read as an end of tokens alone. -/
  empty : readItems setting [] = readItems setting endOnly ∧ readExpr setting [] = readExpr setting endOnly
  /-- Every production has just one run, which leaves the counter for the nesting where it was. -/
  run : ∀ {α : Type} (r : Reader α), Composed (fun _ => True) r → ∀ (depth depth' : Nat) (s : State) (ending : Ending α),
    Runs setting r depth s ending depth' ↔ ending = r (levelAt setting depth) s ∧ depth' = depth
  /-- So has the reading of a program. -/
  program : ∀ (tokens : List Token) (ending : Ending (List Item)) (depth' : Nat),
    Runs setting items 0 (.ofTokens tokens) ending depth' ↔ ending = itemsEnding setting tokens ∧ depth' = 0
  /-- So has that of one expression. -/
  expression : ∀ (tokens : List Token) (ending : Ending (Option Expr)) (depth' : Nat),
    Runs setting wholeExpr 0 (.ofTokens tokens) ending depth' ↔
      ending = wholeExpr (level setting setting.options.maxDepth) (.ofTokens tokens) ∧ depth' = 0

theorem reading_finishes (setting : Setting) : Finishes setting where
  search_before _ _ _ _ h := Search.turn_before h
  search_ends search otherwise _ _ _ h := search.turns_eq otherwise h
  loop_before n _ _ loop _ _ _ _ _ h := loop.step_before (level_takes setting n) h
  loop_ends n _ _ loop otherwise _ _ _ hends h := loop.turns_eq (level_takes setting n) otherwise hends h
  ended n _ r s h hends := by
    obtain ⟨k, hk⟩ := (h.grows inherited_true (level_grows setting n) s trivial).cursor
    exact hk ▸ hends.skip k
  empty := ⟨readItems_nil setting, readExpr_nil setting⟩
  run _ h depth depth' s ending := (h.runnable setting depth).runs_iff s ending depth'
  program tokens ending depth' := (composed_items.runnable setting 0).runs_iff (.ofTokens tokens) ending depth'
  expression tokens ending depth' := (wholeExpr_runnable setting 0).runs_iff (.ofTokens tokens) ending depth'

end JuiceSyntax
