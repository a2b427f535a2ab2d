/-
  The limit of lexical faults. Every text and every fragment in it is cut off at the limit on
  its own; what is left in the end are the first faults of the whole text, since those that a
  fragment loses come after as many others (`take_append_congr`). Tokens and comments are the
  same with a limit and without (`lexWithin_capped`, `faults_lexWithin`).
-/
import JuiceSyntax.Token.Stream

namespace JuiceSyntax

theorem take_append_congr {α : Type} {n : Nat} {a b c d : List α} (h : a.take n = b.take n)
    (h' : c.take n = d.take n) : (a ++ c).take n = (b ++ d).take n := by
  induction n generalizing a b with
  | zero => rfl
  | succ n ih =>
    have hrest : c.take n = d.take n := by
      have := congrArg (List.take n) h'
      simpa only [List.take_take, Nat.min_eq_left (Nat.le_succ n)] using this
    match a, b with
    | [], [] => exact h'
    | [], _ :: _ => cases h
    | _ :: _, [] => cases h
    | x :: a, y :: b =>
      obtain ⟨rfl, htail⟩ := List.cons.inj h
      exact congrArg (List.cons x) (ih htail hrest)

/-! ## Alike up to a limit -/

/-- Two readings of one text that may differ in the faults after the first `n`. -/
structure Capped (n : Nat) (a b : Lexed) : Prop where
  tokens : a.tokens = b.tokens
  comments : a.comments = b.comments
  faults : a.faults.take n = b.faults.take n

namespace Capped

variable {n : Nat}

theorem refl (a : Lexed) : Capped n a a := ⟨rfl, rfl, rfl⟩

theorem append {a b a' b' : Lexed} (h : Capped n a b) (h' : Capped n a' b') : Capped n (a ++ a') (b ++ b') where
  tokens := by rw [Lexed.tokens_append, Lexed.tokens_append, h.tokens, h'.tokens]
  comments := by rw [Lexed.comments_append, Lexed.comments_append, h.comments, h'.comments]
  faults := take_append_congr h.faults h'.faults

end Capped

/-- The fragments of a text, lexed alike up to a limit or too deep. -/
abbrev CappedFragments (n : Nat) (fragment? fragment?' : Option (Nat → List Char → Lexed)) : Prop :=
  Option.Rel (fun lex lex' => ∀ offset text, Capped n (lex offset text) (lex' offset text)) fragment? fragment?'

section

variable {n : Nat} {fragment? fragment?' : Option (Nat → List Char → Lexed)}

theorem readParts_capped (h : CappedFragments n fragment? fragment?') (offset : Nat) (ps : List Part) :
    (readParts fragment? offset ps).pieces = (readParts fragment?' offset ps).pieces ∧
      (readParts fragment? offset ps).comments = (readParts fragment?' offset ps).comments ∧
      (readParts fragment? offset ps).faults.take n = (readParts fragment?' offset ps).faults.take n := by
  induction ps generalizing offset with
  | nil => exact ⟨rfl, rfl, rfl⟩
  | cons part rest ih =>
    obtain ⟨hpieces, hcomments, hfaults⟩ := ih (offset + byteWidth part.raw)
    unfold readParts
    cases part.kind with
    | text => exact ⟨by simp only [hpieces], hcomments, hfaults⟩
    | indent => exact ⟨by simp only [hpieces], hcomments, hfaults⟩
    | escape value => exact ⟨by simp only [hpieces], hcomments, hfaults⟩
    | badEscape value => exact ⟨by simp only [hpieces], hcomments, take_append_congr (a := [_]) (b := [_]) rfl hfaults⟩
    | fragment closed =>
      cases h with
      | none => exact ⟨hpieces, hcomments, take_append_congr (a := [_]) (b := [_]) rfl hfaults⟩
      | some hlex =>
        have hinner := hlex (offset + 2) part.inner
        refine ⟨?_, ?_, take_append_congr hinner.faults hfaults⟩
        · simp only [hinner.tokens, hpieces]
        · simp only [hinner.comments, hcomments]

theorem readString_capped (h : CappedFragments n fragment? fragment?') (closed : Bool) (raw : List Char)
    (span : Span) : Capped n (readString fragment? closed raw span) (readString fragment?' closed raw span) := by
  unfold readString
  dsimp only
  obtain ⟨hpieces, hcomments, hfaults⟩ := readParts_capped h _ _
  exact ⟨by rw [hpieces], hcomments, take_append_congr rfl hfaults⟩

theorem readLexeme_capped (h : CappedFragments n fragment? fragment?') (offset : Nat) (lexeme : Lexeme) :
    Capped n (readLexeme fragment? offset lexeme) (readLexeme fragment?' offset lexeme) := by
  unfold readLexeme
  cases lexeme.kind with
  | string closed => exact readString_capped h closed _ _
  | _ => exact .refl _

theorem readLexemes_capped (h : CappedFragments n fragment? fragment?') (offset : Nat) (lexemes : List Lexeme) :
    Capped n (readLexemes fragment? offset lexemes) (readLexemes fragment?' offset lexemes) := by
  induction lexemes generalizing offset with
  | nil => exact .refl _
  | cons lexeme rest ih => exact (readLexeme_capped h offset lexeme).append (ih _)

end

/-! ## Texts -/

theorem lexAt_capped (n levels offset : Nat) (text : List Char) :
    (lexAt (some n) levels offset text).tokens = (lexAt none levels offset text).tokens ∧
      (lexAt (some n) levels offset text).comments = (lexAt none levels offset text).comments ∧
      (lexAt (some n) levels offset text).faults = (lexAt none levels offset text).faults.take n := by
  induction levels generalizing offset text with
  | zero => exact ⟨rfl, rfl, rfl⟩
  | succ levels ih =>
    have hfragments : CappedFragments n (some (lexAt (some n) levels)) (some (lexAt none levels)) := by
      refine .some fun offset text => ?_
      obtain ⟨htokens, hcomments, hfaults⟩ := ih offset text
      refine ⟨htokens, hcomments, ?_⟩
      rw [hfaults, List.take_take, Nat.min_self]
    have h := readLexemes_capped hfragments offset (lexemes text)
    exact ⟨h.tokens, h.comments, h.faults⟩

/-- A limit changes neither the tokens nor the comments. -/
theorem lexWithin_capped (n : Nat) (source : String) :
    (lexWithin (some n) source).tokens = (lexWithin none source).tokens ∧
      (lexWithin (some n) source).comments = (lexWithin none source).comments ∧
      (lexWithin (some n) source).shebang = (lexWithin none source).shebang :=
  have h := lexAt_capped n fragmentLimit _ _
  ⟨h.1, h.2.1, rfl⟩

/-- A document reports the first of all its faults. -/
theorem faults_lexWithin (n : Nat) (source : String) :
    (lexWithin (some n) source).faults = (lexWithin none source).faults.take n :=
  (lexAt_capped n fragmentLimit _ _).2.2

end JuiceSyntax
