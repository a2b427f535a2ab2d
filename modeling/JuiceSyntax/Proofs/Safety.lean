/-
  Nothing fails in reading a document: no slice of it cuts a character in two or reaches beyond it, no number of a
  token or of a fault is beyond the end of its list, and no count falls below zero.

  `nothing_fails`: made by bytes and numbers, as steps that could fail, the lexing of a document, the reading of its
  tokens and the counting of columns always come to a result, and to the one that the definitions over characters and
  cursors give.
-/
import JuiceSyntax.Proofs.Grammar.Checking
import JuiceSyntax.Proofs.Source.Columns
import JuiceSyntax.Proofs.Token.ByteLexing

namespace JuiceSyntax

open Reader Grammar

structure NothingFails (source : String) (options : Options) : Prop where
  /-- The lexer looks at bytes of the text and slices it between characters, also where it splits and lexes the
  strings in it, and counts braces down only from above zero; however much of a stray character the matcher passes. -/
  lexing : ∀ passed : Char → Nat, (∀ c, passed c ≤ c.utf8Size) → lex? passed source = some (lex source)
  /-- A search among tokens counts braces down only from above zero. -/
  searching : ∀ (search : Search) (c : Cursor), search.find? c = some (c.skip (search.length 0 c.rest))
  /-- From wherever a reader stands the text of a macro body is sliced between characters. -/
  bodies : ∀ (n : Nat) (tokens : List Token) (s : State), s.Stands source tokens →
    macroBody? source.toList s = some (macroBody (level (.ofSource source options) n) s)
  /-- Every production has just one checked run from wherever it stands, and it is as the production reads. -/
  run : ∀ {α : Type} (r : Reader α), Composed (Fair source) r → ∀ (tokens : List Token) (s : State), s.Stands source tokens →
    ∀ (depth depth' : Nat) (ending : Ending α), Checked source options tokens r depth s ending depth' ↔
      ending = r (levelAt (.ofSource source options) depth) s ∧ depth' = depth
  /-- So has the reading of a program. -/
  program : ∀ (ending : Ending (List Item)) (depth : Nat),
    Checked source options (lex source).tokens items 0 (.ofTokens (lex source).tokens) ending depth ↔
      ending = itemsEnding (.ofSource source options) (lex source).tokens ∧ depth = 0
  /-- So has that of one expression. -/
  expression : ∀ (ending : Ending (Option Expr)) (depth : Nat),
    Checked source options (lex source).tokens wholeExpr 0 (.ofTokens (lex source).tokens) ending depth ↔
      ending = wholeExpr (level (.ofSource source options) options.maxDepth) (.ofTokens (lex source).tokens) ∧ depth = 0
  /-- The line of an offset is looked up among the lines, and its column counted from one. -/
  columns : ∀ offset : Nat, (LineMap.ofText source).position? offset = some ((LineMap.ofText source).position offset) ∧
    ∃ column, fewer? ((LineMap.ofText source).position offset).2 = some column

theorem lex_fair (source : String) : Fair source (lex source).tokens := by
  obtain ⟨lo, hi, hlaid⟩ := lex_laid source
  exact ⟨(lex_usable source).1.tokens, .inr ⟨lo, hi, hlaid⟩⟩

theorem nothing_fails (source : String) (options : Options) : NothingFails source options where
  lexing _ hpassed := lex?_eq hpassed source
  searching search c := search.find?_eq c
  bodies n _ _ stands := macroBody?_eq stands (source_level _ n)
  run _ h _ _ stands depth depth' ending := (h.checkable options depth).checked_iff stands ending depth'
  program ending depth := (composed_items.checkable options 0).checked_iff (.ofTokens (lex_fair source)) ending depth
  expression ending depth := (wholeExpr_checkable source options 0).checked_iff (.ofTokens (lex_fair source)) ending depth
  columns offset := ⟨LineMap.position?_eq source offset, _, rfl⟩

end JuiceSyntax
