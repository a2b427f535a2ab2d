/-
  A text lexed in another place and with other levels of fragments left.

  `lexAt_moved`: what is lexed from a text `n` bytes further on is the same, `n` bytes further
  on; no offset is relative to anything but the document.

  `fragmentDepth` is how deep fragments are nested in tokens. `lexAt_of_shallow`: if no fragment
  was too deep, any number of levels that this depth does not exceed gives the same reading.
-/
import JuiceSyntax.Proofs.Token.Literals

namespace JuiceSyntax

/-! ## Other offsets -/

/-- The span with this done to both of its offsets. -/
def Span.moved (f : Nat → Nat) (span : Span) : Span := ⟨f span.start, f span.stop⟩

mutual

def Kind.moved (f : Nat → Nat) : Kind → Kind
  | .str multiline pieces => .str multiline (movedPieces f pieces)
  | .int value radix => .int value radix
  | .float value => .float value
  | .bool value => .bool value
  | .name text => .name text
  | .typeName text => .typeName text
  | .macroName text => .macroName text
  | .word word => .word word
  | .mark mark => .mark mark
  | .done => .done

def movedPieces (f : Nat → Nat) : List Piece → List Piece
  | [] => []
  | .text text span :: rest => .text text (span.moved f) :: movedPieces f rest
  | .escape value raw span :: rest => .escape value raw (span.moved f) :: movedPieces f rest
  | .fragment tokens span :: rest => .fragment (movedTokens f tokens) (span.moved f) :: movedPieces f rest
  | .indent span :: rest => .indent (span.moved f) :: movedPieces f rest

/-- The tokens with this done to every offset, also in the fragments of strings. -/
def movedTokens (f : Nat → Nat) : List Token → List Token
  | [] => []
  | ⟨kind, span⟩ :: rest => ⟨kind.moved f, span.moved f⟩ :: movedTokens f rest

end

def Token.moved (f : Nat → Nat) (token : Token) : Token := ⟨token.kind.moved f, token.span.moved f⟩

theorem movedTokens_eq_map (f : Nat → Nat) (tokens : List Token) : movedTokens f tokens = tokens.map (·.moved f) := by
  induction tokens with
  | nil => rfl
  | cons token rest ih =>
    cases token
    rw [movedTokens, ih, List.map_cons, Token.moved]

theorem movedTokens_append (f : Nat → Nat) (tokens tokens' : List Token) :
    movedTokens f (tokens ++ tokens') = movedTokens f tokens ++ movedTokens f tokens' := by
  simp only [movedTokens_eq_map, List.map_append]

/-! A change of offsets that takes another back leaves everything as it was. -/

theorem Span.moved_moved {f g : Nat → Nat} (h : ∀ n, g (f n) = n) (span : Span) : (span.moved f).moved g = span := by
  simp only [Span.moved, h]

mutual

theorem Kind.moved_moved {f g : Nat → Nat} (h : ∀ n, g (f n) = n) : (kind : Kind) → (kind.moved f).moved g = kind
  | .str _ pieces => by simp only [Kind.moved, movedPieces_movedPieces h pieces]
  | .int _ _ | .float _ | .bool _ | .name _ | .typeName _ | .macroName _ | .word _ | .mark _ | .done => rfl

theorem movedPieces_movedPieces {f g : Nat → Nat} (h : ∀ n, g (f n) = n) :
    (pieces : List Piece) → movedPieces g (movedPieces f pieces) = pieces
  | [] => rfl
  | .text _ span :: rest => by simp only [movedPieces, span.moved_moved h, movedPieces_movedPieces h rest]
  | .escape _ _ span :: rest => by simp only [movedPieces, span.moved_moved h, movedPieces_movedPieces h rest]
  | .fragment tokens span :: rest => by
    simp only [movedPieces, span.moved_moved h, movedTokens_movedTokens h tokens, movedPieces_movedPieces h rest]
  | .indent span :: rest => by simp only [movedPieces, span.moved_moved h, movedPieces_movedPieces h rest]

theorem movedTokens_movedTokens {f g : Nat → Nat} (h : ∀ n, g (f n) = n) :
    (tokens : List Token) → movedTokens g (movedTokens f tokens) = tokens
  | [] => rfl
  | ⟨kind, span⟩ :: rest => by
    simp only [movedTokens, kind.moved_moved h, span.moved_moved h, movedTokens_movedTokens h rest]

end

/-! ## Another place -/

def Comment.moved (f : Nat → Nat) (comment : Comment) : Comment := ⟨comment.span.moved f, comment.text⟩

def LexFault.moved (f : Nat → Nat) (fault : LexFault) : LexFault := ⟨fault.cause, fault.span.moved f⟩

def Lexed.moved (f : Nat → Nat) (lexed : Lexed) : Lexed :=
  ⟨movedTokens f lexed.tokens, lexed.comments.map (·.moved f), lexed.faults.map (·.moved f)⟩

theorem Lexed.moved_append (f : Nat → Nat) (a b : Lexed) : (a ++ b).moved f = a.moved f ++ b.moved f := by
  show Lexed.mk _ _ _ = Lexed.mk _ _ _
  rw [Lexed.mk.injEq]
  exact ⟨movedTokens_append f _ _, List.map_append, List.map_append⟩

/-- The fragments of two texts, lexed alike but for the place or too deep. -/
abbrev MovedFragments (n : Nat) (fragment? fragment?' : Option (Nat → List Char → Lexed)) : Prop :=
  Option.Rel (fun lex lex' => ∀ offset text, lex' (n + offset) text = (lex offset text).moved (n + ·)) fragment? fragment?'

section

variable {n : Nat} {fragment? fragment?' : Option (Nat → List Char → Lexed)}

theorem readParts_moved (h : MovedFragments n fragment? fragment?') (offset : Nat) (ps : List Part) :
    (readParts fragment?' (n + offset) ps).pieces = movedPieces (n + ·) (readParts fragment? offset ps).pieces ∧
      (readParts fragment?' (n + offset) ps).comments = (readParts fragment? offset ps).comments.map (·.moved (n + ·)) ∧
      (readParts fragment?' (n + offset) ps).faults = (readParts fragment? offset ps).faults.map (·.moved (n + ·)) := by
  induction ps generalizing offset with
  | nil => exact ⟨rfl, rfl, rfl⟩
  | cons part rest ih =>
    obtain ⟨hpieces, hcomments, hfaults⟩ := ih (offset + byteWidth part.raw)
    rw [← Nat.add_assoc] at hpieces hcomments hfaults
    have hspan : Span.moved (n + ·) ⟨offset, offset + byteWidth part.raw⟩ = ⟨n + offset, n + offset + byteWidth part.raw⟩ := by
      rw [Span.moved, Nat.add_assoc]
    unfold readParts
    cases part.kind with
    | text => simp only [movedPieces, hspan, hpieces, hcomments, hfaults, and_self]
    | indent => simp only [movedPieces, hspan, hpieces, hcomments, hfaults, and_self]
    | escape value => simp only [movedPieces, hspan, hpieces, hcomments, hfaults, and_self]
    | badEscape value =>
      simp only [movedPieces, hspan, hpieces, hcomments, hfaults, List.map_cons, LexFault.moved, and_self]
    | fragment closed =>
      cases h with
      | none => simp only [hspan, hpieces, hcomments, hfaults, List.map_cons, LexFault.moved, and_self]
      | some hlex =>
        simp only [Nat.add_assoc, hlex] at *
        simp only [movedPieces, hspan, hpieces, hcomments, hfaults, Lexed.moved, List.map_append, and_self]

theorem readString_moved (h : MovedFragments n fragment? fragment?') (closed : Bool) (raw : List Char) (span : Span) :
    readString fragment?' closed raw (span.moved (n + ·)) = (readString fragment? closed raw span).moved (n + ·) := by
  obtain ⟨multiline, lead, content, -, -, -, heq⟩ := readString_eq closed raw
  have hoffset : (span.moved (n + ·)).start + 1 + byteWidth lead = n + (span.start + 1 + byteWidth lead) := by
    simp only [Span.moved]
    omega
  obtain ⟨hpieces, hcomments, hfaults⟩ := readParts_moved h (span.start + 1 + byteWidth lead) (parts multiline content)
  rw [heq, heq, hoffset, hpieces, hcomments, hfaults]
  cases closed <;> rfl

theorem readLexeme_moved (h : MovedFragments n fragment? fragment?') (offset : Nat) (lexeme : Lexeme) :
    readLexeme fragment?' (n + offset) lexeme = (readLexeme fragment? offset lexeme).moved (n + ·) := by
  have hspan : Span.moved (n + ·) ⟨offset, offset + byteWidth lexeme.raw⟩ =
      ⟨n + offset, n + offset + byteWidth lexeme.raw⟩ := by
    rw [Span.moved, Nat.add_assoc]
  have hcause (cause? : Option LexCause) (span : Span) :
      ((cause?.map fun cause => (⟨cause, span⟩ : LexFault)).toList).map (·.moved (n + ·)) =
        (cause?.map fun cause => (⟨cause, span.moved (n + ·)⟩ : LexFault)).toList := by
    cases cause? <;> rfl
  unfold readLexeme
  cases lexeme.kind with
  | string closed =>
    rw [← readString_moved h, hspan]
  | integer radix =>
    dsimp only
    simp only [Lexed.moved, movedTokens, Kind.moved, hspan, hcause, List.map_nil]
  | decimal =>
    dsimp only
    simp only [Lexed.moved, movedTokens, Kind.moved, hspan, hcause, List.map_nil]
  | stray => 
    simp only [Lexed.moved, movedTokens, List.map_map, List.map_nil, Function.comp_def, LexFault.moved, hspan]
  | blank => rfl
  | comment => 
    simp only [Lexed.moved, movedTokens, List.map_cons, List.map_nil, Comment.moved, hspan]
  | _ => simp only [Lexed.moved, movedTokens, Kind.moved, hspan, hcause, List.map_nil]

theorem readLexemes_moved (h : MovedFragments n fragment? fragment?') (offset : Nat) (ls : List Lexeme) :
    readLexemes fragment?' (n + offset) ls = (readLexemes fragment? offset ls).moved (n + ·) := by
  induction ls generalizing offset with
  | nil => rfl
  | cons lexeme rest ih => 
    rw [readLexemes, readLexemes, readLexeme_moved h, Nat.add_assoc, ih, Lexed.moved_append]

end

theorem capFaults_moved (limit : Option Nat) (f : Nat → Nat) (faults : List LexFault) :
    capFaults limit (faults.map (·.moved f)) = (capFaults limit faults).map (·.moved f) := by
  cases limit with
  | none => rfl
  | some n => exact List.map_take.symm

/-- A text further on in a document is lexed as the same text before, but for its place. -/
theorem lexAt_moved (limit : Option Nat) (levels n offset : Nat) (text : List Char) :
    lexAt limit levels (n + offset) text = (lexAt limit levels offset text).moved (n + ·) := by
  have hlexemes {levels : Nat} (h : MovedFragments n (fragmentsAt limit levels) (fragmentsAt limit levels)) (offset : Nat)
      (text : List Char) : lexAt limit levels (n + offset) text = (lexAt limit levels offset text).moved (n + ·) := by
    rw [lexAt_eq, lexAt_eq, readLexemes_moved h]
    simp only [Lexed.moved, capFaults_moved]
  induction levels generalizing offset text with
  | zero => exact hlexemes .none offset text
  | succ levels ih => exact hlexemes (.some ih) offset text

/-! ## Other levels -/

mutual

/-- How deep fragments are nested in a string. -/
def Kind.fragmentDepth : Kind → Nat
  | .str _ pieces => pieceDepth pieces
  | _ => 0

def pieceDepth : List Piece → Nat
  | [] => 0
  | .fragment tokens _ :: rest => max (fragmentDepth tokens + 1) (pieceDepth rest)
  | .text _ _ :: rest | .escape _ _ _ :: rest | .indent _ :: rest => pieceDepth rest

/-- How deep fragments are nested in tokens; those with none in them are one deep. -/
def fragmentDepth : List Token → Nat
  | [] => 0
  | ⟨kind, _⟩ :: rest => max kind.fragmentDepth (fragmentDepth rest)

end

theorem fragmentDepth_append (tokens tokens' : List Token) :
    fragmentDepth (tokens ++ tokens') = max (fragmentDepth tokens) (fragmentDepth tokens') := by
  induction tokens with
  | nil => simp [fragmentDepth]
  | cons token rest ih =>
    cases token
    rw [List.cons_append, fragmentDepth, ih, fragmentDepth, Nat.max_assoc]

/-- None of the faults is that a fragment is too deep. -/
def AllShallow (faults : List LexFault) : Prop := ∀ fault ∈ faults, fault.cause ≠ .fragmentTooDeep

instance (faults : List LexFault) : Decidable (AllShallow faults) := inferInstanceAs (Decidable (∀ _ ∈ _, _))

theorem allShallow_append {faults faults' : List LexFault} :
    AllShallow (faults ++ faults') ↔ AllShallow faults ∧ AllShallow faults' := List.forall_mem_append

section

variable {fragment? : Option (Nat → List Char → Lexed)} {levels : Nat}

/-- Fragments that were not too deep are lexed alike with as many levels as they are deep. -/
def LevelFragments (fragment? : Option (Nat → List Char → Lexed)) : Prop :=
  ∀ lex, fragment? = some lex → ∀ offset text, AllShallow (lex offset text).faults →
    ∀ levels, fragmentDepth (lex offset text).tokens ≤ levels → lexAt none levels offset text = lex offset text

theorem readParts_levels (h : LevelFragments fragment?) (offset : Nat) (ps : List Part)
    (hshallow : AllShallow (readParts fragment? offset ps).faults)
    (hdepth : pieceDepth (readParts fragment? offset ps).pieces ≤ levels) :
    readParts (fragmentsAt none levels) offset ps = readParts fragment? offset ps := by
  induction ps generalizing offset with
  | nil => rfl
  | cons part rest ih =>
    unfold readParts at hshallow hdepth ⊢
    cases hkind : part.kind with
    | fragment closed => 
      rw [hkind] at hshallow hdepth
      cases hlex : fragment? with
      | none =>
        subst hlex
        exact absurd rfl (hshallow _ List.mem_cons_self)
      | some lex =>
        subst hlex
        dsimp only at hshallow hdepth ⊢
        rw [allShallow_append] at hshallow
        rw [pieceDepth, Nat.max_le] at hdepth
        cases levels with
        | zero => exact absurd hdepth.1 (by omega)
        | succ levels =>
          have hinner := h lex rfl _ _ hshallow.1 levels (by omega)
          simp only [fragmentsAt, hinner]
          have hrest := ih _ hshallow.2 hdepth.2
          simp only [fragmentsAt] at hrest
          rw [hrest]
    | badEscape value =>
      rw [hkind] at hshallow hdepth
      dsimp only at hshallow hdepth ⊢
      rw [pieceDepth] at hdepth
      rw [ih _ (fun fault hmem => hshallow fault (List.mem_cons_of_mem _ hmem)) hdepth]
    | _ =>
      rw [hkind] at hshallow hdepth
      dsimp only at hshallow hdepth ⊢
      rw [pieceDepth] at hdepth
      rw [ih _ hshallow hdepth]

theorem readLexeme_levels (h : LevelFragments fragment?) (offset : Nat) (lexeme : Lexeme)
    (hshallow : AllShallow (readLexeme fragment? offset lexeme).faults)
    (hdepth : fragmentDepth (readLexeme fragment? offset lexeme).tokens ≤ levels) :
    readLexeme (fragmentsAt none levels) offset lexeme = readLexeme fragment? offset lexeme := by
  unfold readLexeme at hshallow hdepth ⊢
  cases hkind : lexeme.kind with
  | string closed =>
    rw [hkind] at hshallow hdepth
    dsimp only at hshallow hdepth ⊢
    obtain ⟨multiline, lead, content, -, -, -, heq⟩ := readString_eq closed lexeme.raw
    rw [heq] at hshallow hdepth ⊢
    rw [heq, readParts_levels h _ _ (allShallow_append.1 hshallow).2]
    simpa only [fragmentDepth, Kind.fragmentDepth, Nat.max_zero] using hdepth
  | _ => rfl

theorem readLexemes_levels (h : LevelFragments fragment?) (offset : Nat) (ls : List Lexeme)
    (hshallow : AllShallow (readLexemes fragment? offset ls).faults)
    (hdepth : fragmentDepth (readLexemes fragment? offset ls).tokens ≤ levels) :
    readLexemes (fragmentsAt none levels) offset ls = readLexemes fragment? offset ls := by
  induction ls generalizing offset with
  | nil => rfl
  | cons lexeme rest ih =>
    rw [readLexemes, Lexed.faults_append, allShallow_append] at hshallow
    rw [readLexemes, Lexed.tokens_append, fragmentDepth_append, Nat.max_le] at hdepth
    rw [readLexemes, readLexemes, readLexeme_levels h _ _ hshallow.1 hdepth.1, ih _ hshallow.2 hdepth.2]

end

theorem lexAt_none (levels offset : Nat) (text : List Char) :
    lexAt none levels offset text = readLexemes (fragmentsAt none levels) offset (lexemes text) := by
  rw [lexAt_eq]
  rfl

theorem fragmentsAt_levels (levels : Nat) : LevelFragments (fragmentsAt none levels) := by
  induction levels with
  | zero => exact fun _ hlex => nomatch hlex
  | succ levels ih =>
    intro lex hlex offset text hshallow levels' hdepth
    obtain rfl := Option.some.inj hlex
    rw [lexAt_none] at hshallow hdepth
    rw [lexAt_none, lexAt_none]
    exact readLexemes_levels ih offset (lexemes text) hshallow hdepth

/-- Where no fragment was too deep, a text is lexed alike with as many levels as its fragments are
deep. -/
theorem lexAt_of_shallow {levels levels' offset : Nat} {text : List Char}
    (hshallow : AllShallow (lexAt none levels offset text).faults)
    (hdepth : fragmentDepth (lexAt none levels offset text).tokens ≤ levels') :
    lexAt none levels' offset text = lexAt none levels offset text :=
  fragmentsAt_levels (levels + 1) _ rfl offset text hshallow levels' hdepth

/-- Fragments are no deeper than there are levels. -/
theorem fragmentDepth_readParts {fragment? : Option (Nat → List Char → Lexed)} {levels : Nat}
    (h : ∀ lex, fragment? = some lex → ∀ offset text, fragmentDepth (lex offset text).tokens < levels) (offset : Nat)
    (ps : List Part) : pieceDepth (readParts fragment? offset ps).pieces ≤ levels := by
  induction ps generalizing offset with
  | nil => exact Nat.zero_le _
  | cons part rest ih =>
    have hrest := ih (offset + byteWidth part.raw)
    unfold readParts
    cases part.kind with
    | fragment closed =>
      cases hlex : fragment? with
      | none => 
        subst hlex
        exact hrest
      | some lex =>
        subst hlex
        dsimp only
        rw [pieceDepth, Nat.max_le]
        exact ⟨h lex rfl _ _, hrest⟩
    | _ =>
      dsimp only
      rw [pieceDepth]
      exact hrest

theorem fragmentDepth_readLexemes {fragment? : Option (Nat → List Char → Lexed)} {levels : Nat}
    (h : ∀ lex, fragment? = some lex → ∀ offset text, fragmentDepth (lex offset text).tokens < levels) (offset : Nat)
    (ls : List Lexeme) : fragmentDepth (readLexemes fragment? offset ls).tokens ≤ levels := by
  induction ls generalizing offset with
  | nil => exact Nat.zero_le _
  | cons lexeme rest ih =>
    rw [readLexemes, Lexed.tokens_append, fragmentDepth_append, Nat.max_le]
    refine ⟨?_, ih _⟩
    unfold readLexeme
    cases lexeme.kind with
    | string closed =>
      obtain ⟨multiline, lead, content, -, -, -, heq⟩ := readString_eq closed lexeme.raw
      dsimp only
      rw [heq]
      simp only [fragmentDepth, Kind.fragmentDepth, Nat.max_zero]
      exact fragmentDepth_readParts h _ _
    | _ => simp [fragmentDepth, Kind.fragmentDepth, Lexed.empty]

theorem fragmentDepth_lexAt (levels offset : Nat) (text : List Char) :
    fragmentDepth (lexAt none levels offset text).tokens ≤ levels := by
  induction levels generalizing offset text with
  | zero =>
    have hnone : ∀ lex, fragmentsAt none 0 = some lex → ∀ offset text, fragmentDepth (lex offset text).tokens < 0 :=
      fun _ hlex => nomatch hlex
    rw [lexAt_none]
    exact fragmentDepth_readLexemes hnone _ _
  | succ levels ih =>
    rw [lexAt_none]
    refine fragmentDepth_readLexemes (fun lex hlex offset text => ?_) _ _
    obtain rfl := Option.some.inj hlex
    exact Nat.lt_succ_of_le (ih offset text)

end JuiceSyntax
