/-
  Macro bodies in the tokens that they are read from. `Embedded site bodies`: the bodies stand in
  the tokens one after another, each between two braces; those of a string token stand in the tokens
  of its fragments.

  `macroBody_ok`: the reader of a body gives the tokens between the braces that it consumes.
-/
import JuiceSyntax.Proofs.Grammar.Covering

namespace JuiceSyntax

open Reader Grammar

/-! ## Bodies that stand in tokens -/

/-- The bodies stand one after another, each between braces of its own. -/
inductive Embedded : Site → List MacroBody → Prop
  | nil (site : Site) : Embedded site []
  | pass (token : Token) {rest : List Token} {bodies : List MacroBody} (following : Embedded (.tokens rest) bodies) :
    Embedded (.tokens (token :: rest)) bodies
  | body {opening closing : Token} {inner rest : List Token} {text : String} {bodies : List MacroBody}
    (opens : opening.kind = .mark .lBrace) (closes : closing.kind = .mark .rBrace)
    (following : Embedded (.tokens rest) bodies) : Embedded (.tokens (opening :: (inner ++ closing :: rest)))
      (⟨opening.span.cover closing.span, ⟨opening.span.stop, closing.span.start⟩, text, inner⟩ :: bodies)
  | literal {token : Token} {rest : List Token} {multiline : Bool} {pieces : List Piece} {found bodies : List MacroBody}
    (kind : token.kind = .str multiline pieces) (inside : Embedded (.pieces pieces) found)
    (following : Embedded (.tokens rest) bodies) : Embedded (.tokens (token :: rest)) (found ++ bodies)
  | piece (piece : Piece) {rest : List Piece} {bodies : List MacroBody} (following : Embedded (.pieces rest) bodies) :
    Embedded (.pieces (piece :: rest)) bodies
  | fragment {range back : List Token} (span : Span) {rest : List Piece} {found bodies : List MacroBody}
    (undone : Undone range) (inside : Embedded (.tokens range) found) (following : Embedded (.pieces rest) bodies) :
    Embedded (.pieces (.fragment (range ++ back) span :: rest)) (found ++ bodies)

namespace Embedded

variable {tokens range : List Token} {bodies bodies' : List MacroBody}

theorem before (front : List Token) (h : Embedded (.tokens range) bodies) : Embedded (.tokens (front ++ range)) bodies := by
  induction front with
  | nil => exact h
  | cons token front ih => exact .pass token ih

theorem append (h : Embedded (.tokens tokens) bodies) (h' : Embedded (.tokens range) bodies') :
    Embedded (.tokens (tokens ++ range)) (bodies ++ bodies') := by
  generalize hsite : Site.tokens tokens = site at h
  induction h generalizing tokens with
  | nil => exact h'.before tokens
  | pass token following ih =>
    cases hsite
    exact .pass token (ih rfl)
  | body opens closes following ih =>
    cases hsite
    rw [List.cons_append, List.append_assoc, List.cons_append]
    exact .body opens closes (ih rfl)
  | literal kind inside following _ ih =>
    cases hsite
    rw [List.append_assoc]
    exact .literal kind inside (ih rfl)
  | piece | fragment => cases hsite

end Embedded

/-! ## Bodies that a reading consumes -/

/-- From `c` to `d` a reading consumes tokens in which the bodies stand. -/
def Consumed (c : Cursor) (bodies : List MacroBody) (d : Cursor) : Prop :=
  ∃ range, c.Passes range d ∧ Embedded (.tokens range) bodies

/-- The bodies stand in the first of these tokens. -/
def FoundIn (tokens : List Token) (bodies : List MacroBody) : Prop :=
  ∃ range back, tokens = range ++ back ∧ Undone range ∧ Embedded (.tokens range) bodies

/-- A reading ends where it began, and what is said of its bodies is said of them alone. -/
def Staying (found : List MacroBody → Prop) (c : Cursor) (bodies : List MacroBody) (d : Cursor) : Prop :=
  d = c ∧ found bodies

namespace Consumed

variable {c d e : Cursor} {bodies bodies' : List MacroBody}

theorem refl (c : Cursor) : Consumed c [] c := ⟨[], .refl c, .nil _⟩

theorem skip (c : Cursor) (n : Nat) : Consumed c [] (c.skip n) := by
  obtain ⟨range, hpasses⟩ := c.passes_skip n
  exact ⟨range, hpasses, .nil _⟩

theorem trans (h : Consumed c bodies d) (h' : Consumed d bodies' e) : Consumed c (bodies ++ bodies') e := by
  obtain ⟨range, hpasses, hembedded⟩ := h
  obtain ⟨range', hpasses', hembedded'⟩ := h'
  exact ⟨range ++ range', hpasses.trans hpasses', hembedded.append hembedded'⟩

/-- What is read from these tokens stands in those that are consumed. -/
theorem foundIn {tokens : List Token} (h : Consumed (.ofTokens tokens) bodies d) : FoundIn tokens bodies := by
  obtain ⟨range, hpasses, hembedded⟩ := h
  exact ⟨range, d.rest, hpasses.rest, hpasses.undone, hembedded⟩

/-- A string is consumed with the bodies in its pieces. -/
theorem of_pieces {multiline : Bool} {pieces : List Piece} (hkind : c.kind = .str multiline pieces)
    (h : Embedded (.pieces pieces) bodies) : Consumed c bodies c.advance := by
  have hmid : c.atEnd = false := by
    rw [Cursor.atEnd, hkind]
    rfl
  have hliteral := Embedded.literal hkind h (.nil (.tokens []))
  rw [List.append_nil] at hliteral
  exact ⟨[c.current], .one hmid, hliteral⟩

end Consumed

/-- The body that is read stands between the braces consumed for it, and is noted. -/
theorem macroBody_ok {L : Level} {s t : State} {body : MacroBody} (h : macroBody L s = .ok body t) :
    Consumed s.cursor [body] t.cursor ∧ t.macroBodies = s.macroBodies ++ [body.inner] := by
  rw [macroBody_apply] at h
  split at h
  · rename_i hopen
    dsimp only at h
    split at h
    · cases h
    · rename_i hmid
      cases h
      have hmid : (s.cursor.advance.skip (innerLength 0 s.cursor.advance.rest)).atEnd = false := by simpa using hmid
      have hrest := rest_skip_innerLength s.cursor.advance
      obtain ⟨range, hpasses⟩ := s.cursor.advance.passes_skip (innerLength 0 s.cursor.advance.rest)
      -- What is passed is what the body is given as its tokens.
      have hrange : range = s.cursor.advance.rest.take (innerLength 0 s.cursor.advance.rest) := by
        have htokens := hpasses.rest
        rw [hrest] at htokens
        have hsplit := htokens.symm.trans (List.take_append_drop (innerLength 0 s.cursor.advance.rest) _).symm
        exact List.append_cancel_right hsplit
      rw [Cursor.rest_of_mid hmid] at hrest
      obtain hdone | hclose := head_drop_innerLength _ _ hrest.symm
      · exact absurd (hdone.symm.trans hmid) (by decide)
      · refine ⟨⟨s.cursor.current :: (range ++ [_]), .cons (isDone_of_isMark hopen) (hpasses.trans (.one hmid)), ?_⟩, rfl⟩
        rw [← hrange]
        exact .body (eq_of_isMark hopen) (eq_of_isMark hclose) (.nil (.tokens []))
  · cases h

end JuiceSyntax
