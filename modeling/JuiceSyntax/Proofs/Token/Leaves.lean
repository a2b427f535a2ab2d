/-
  What a token list says: its names, literals and operators, in the order of the text. A string
  literal is one leaf, with what the token lists of its fragments say inside it.

  `lex_regular`: in a document `done` stands only at the end of a token list, and `of` and `as`
  are never names. This goes over to the tails and fragments of a list (`regular_inherited`).
-/
import JuiceSyntax.Proofs.Grammar.Composition
import JuiceSyntax.Proofs.Token.Places

namespace JuiceSyntax

mutual

/-- A name, literal or operator as it was written. -/
inductive Leaf where
  /-- Of a value or of a type. -/
  | name (text : String)
  | macroName (text : String)
  | int (value : UInt64) (radix : Radix)
  | float (value : Float)
  | bool (value : Bool)
  | str (multiline : Bool) (parts : List LeafPart)
  | operator (mark : Mark)

/-- A part of a string literal. -/
inductive LeafPart where
  | text (text : String)
  | escape (value : Char) (raw : String)
  | fragment (leaves : List Leaf)

end

/-- A prefix, binary or type operator, or the question mark. -/
def Mark.isOperator (m : Mark) : Bool :=
  (UnaryOp.ofKind? (.mark m)).isSome || (BinaryOp.ofMark? m).isSome || (TypeOp.ofKind? (.mark m)).isSome ||
    m == .question

mutual

def Kind.leaves : Kind → List Leaf
  | .int value radix => [.int value radix]
  | .float value => [.float value]
  | .bool value => [.bool value]
  | .name text | .typeName text => [.name text]
  | .macroName text => [.macroName text]
  | .str multiline pieces => [.str multiline (pieceParts pieces)]
  | .mark m => if m.isOperator then [.operator m] else []
  | .word _ | .done => []

def pieceParts : List Piece → List LeafPart
  | [] => []
  | .text text _ :: rest => .text text :: pieceParts rest
  | .escape value raw _ :: rest => .escape value raw :: pieceParts rest
  | .fragment tokens _ :: rest => .fragment (tokenLeaves tokens) :: pieceParts rest
  | .indent _ :: rest => pieceParts rest

/-- The leaves of a token list, in the order of the text. -/
def tokenLeaves : List Token → List Leaf
  | [] => []
  | ⟨kind, _⟩ :: rest => kind.leaves ++ tokenLeaves rest

end

theorem tokenLeaves_cons (token : Token) (rest : List Token) :
    tokenLeaves (token :: rest) = token.kind.leaves ++ tokenLeaves rest := by
  cases token
  rfl

theorem tokenLeaves_append (tokens tokens' : List Token) :
    tokenLeaves (tokens ++ tokens') = tokenLeaves tokens ++ tokenLeaves tokens' := by
  induction tokens with
  | nil => rfl
  | cons token rest ih => rw [List.cons_append, tokenLeaves_cons, tokenLeaves_cons, ih, List.append_assoc]

/-! ## Regular lists -/

/-- The words that can be labels without being names. -/
def isLabelWord (text : String) : Bool := text == "of" || text == "as"

/-- The token here is the end only if nothing follows, and no name is spelled like a word that
can be a label. -/
structure RegularPlace (place : List Token) : Prop where
  done : isEnd place = true → place.tail = []
  name : ∀ text, (firstToken place).kind = .name text ∨ (firstToken place).kind = .typeName text → isLabelWord text = false

/-- So at every place of a list. -/
def Regular (tokens : List Token) : Prop := ∀ place ∈ places tokens, RegularPlace place

theorem Regular.tail {token : Token} {rest : List Token} (h : Regular (token :: rest)) : Regular rest := by
  intro place hmem
  refine h place ?_
  rw [places_cons]
  exact List.mem_cons_of_mem _ (List.mem_append_right _ hmem)

theorem Regular.here {token : Token} {rest : List Token} (h : Regular (token :: rest)) : RegularPlace (token :: rest) := by
  refine h _ ?_
  rw [places_cons]
  exact List.mem_cons_self

theorem Regular.suffix {tokens rest : List Token} (h : Regular (tokens ++ rest)) : Regular rest := by
  induction tokens with
  | nil => exact h
  | cons token tokens ih => exact ih h.tail

/-- The fragments of a string are regular lists of their own. -/
def RegularPieces (pieces : List Piece) : Prop := ∀ place ∈ piecePlaces pieces, RegularPlace place

theorem Regular.pieces {token : Token} {rest : List Token} (h : Regular (token :: rest)) {multiline : Bool}
    {pieces : List Piece} (hk : token.kind = .str multiline pieces) : RegularPieces pieces := by
  intro place hmem
  refine h place ?_
  rw [places_cons, hk, Kind.places]
  exact List.mem_cons_of_mem _ (List.mem_append_left _ hmem)

namespace RegularPieces

variable {piece : Piece} {rest : List Piece}

theorem tail (h : RegularPieces (piece :: rest)) : RegularPieces rest := by
  intro place hmem
  refine h place ?_
  cases piece with
  | fragment tokens span => exact List.mem_append_right _ hmem
  | _ => exact hmem

theorem fragment {tokens : List Token} {span : Span} (h : RegularPieces (.fragment tokens span :: rest)) :
    Regular tokens :=
  fun place hmem => h place (List.mem_append_left _ hmem)

end RegularPieces

/-! ## Documents are regular -/

/-- A name is not spelled like a reserved word. -/
def Lexeme.Regular (lexeme : Lexeme) : Prop :=
  lexeme.kind = .name ∨ lexeme.kind = .typeName → isLabelWord (String.ofList lexeme.raw) = false

theorem isLabelWord_of_keyword {text : String} (h : Keyword.ofText? text = none) : isLabelWord text = false := by
  rw [Keyword.ofText?, List.find?_eq_none] at h
  have hof := h .ofWord (Keyword.mem_all _)
  have has := h .asWord (Keyword.mem_all _)
  simp only [Keyword.text, beq_iff_eq] at hof has
  simp [isLabelWord, Ne.symm hof, Ne.symm has]

theorem isLabelWord_of_upper {c : Char} (h : isUpper c = true) (rest : List Char) :
    isLabelWord (String.ofList (c :: rest)) = false := by
  have hword (first : Char) (others : List Char) (hfirst : isUpper first = false) :
      String.ofList (c :: rest) ≠ String.ofList (first :: others) := by
    intro heq
    obtain ⟨rfl, -⟩ := List.cons.inj (String.ofList_injective heq)
    exact absurd (h.symm.trans hfirst) (by decide)
  have hof : String.ofList (c :: rest) ≠ "of" := hword 'o' ['f'] (by decide)
  have has : String.ofList (c :: rest) ≠ "as" := hword 'a' ['s'] (by decide)
  rw [isLabelWord, beq_eq_false_iff_ne.2 hof, beq_eq_false_iff_ne.2 has, Bool.or_false]

theorem numberAt_ne_name (text : List Char) : (numberAt text).1 ≠ .name ∧ (numberAt text).1 ≠ .typeName := by
  unfold numberAt
  split
  · dsimp only
    split <;> exact ⟨nofun, nofun⟩
  · exact ⟨nofun, nofun⟩

theorem stringAt_ne_name (text : List Char) : (stringAt text).1 ≠ .name ∧ (stringAt text).1 ≠ .typeName := by
  unfold stringAt
  split <;> simp

/-- What is read as a name is no reserved word. -/
theorem wordAt_regular {text : List Char} (h : (wordAt text).1 = .name ∨ (wordAt text).1 = .typeName) :
    isLabelWord (String.ofList (text.take (wordAt text).2)) = false := by
  have htake : text.take (text.takeWhile continuesName).length = text.takeWhile continuesName :=
    (List.prefix_iff_eq_take.1 (List.takeWhile_prefix _)).symm
  unfold wordAt at h ⊢
  dsimp only at h ⊢
  split at h
  · exact absurd h (by simp)
  · exact absurd h (by simp)
  · split at h
    · exact absurd h (by simp)
    · rename_i hkeyword
      split at h
      · simp_all only [isLabelWord_of_keyword]
      · exact absurd h (by simp)
      · simp_all only [isLabelWord_of_keyword]

theorem firstLexeme_regular (c : Char) (rest : List Char) : (firstLexeme c rest).Regular := by
  unfold Lexeme.Regular firstLexeme lexemeAt
  dsimp only
  intro h
  split at h
  · exact absurd h (by simp)
  split at h
  · exact absurd h (by simp)
  split at h
  · exact absurd h (by simp [numberAt_ne_name])
  split at h
  · simp_all only [if_true, if_false, Bool.false_eq_true]
    exact wordAt_regular h
  split at h
  · rename_i hupper
    simp_all only [if_true, if_false, Bool.false_eq_true]
    rw [List.takeWhile_cons, if_pos (by simp [continuesTypeName, hupper]), List.length_cons, List.take_succ_cons]
    exact isLabelWord_of_upper hupper _
  split at h
  · exact absurd h (by simp [stringAt_ne_name])
  · split at h
    · exact absurd h (by simp)
    · exact absurd h (by simp)

theorem lexemes_regular (fuel : Nat) (text : List Char) : ∀ lexeme ∈ cutLexemes fuel text, lexeme.Regular := by
  induction fuel generalizing text with
  | zero => exact fun _ hmem => absurd hmem List.not_mem_nil
  | succ fuel ih =>
    cases text with
    | nil => exact fun _ hmem => absurd hmem List.not_mem_nil
    | cons c rest =>
      intro lexeme hmem
      obtain rfl | hrest := List.mem_cons.1 hmem
      · exact firstLexeme_regular c rest
      · exact ih _ lexeme hrest

/-- Fragments are lexed to regular lists, if they are lexed at all. -/
def RegularFragments (fragment? : Option (Nat → List Char → Lexed)) : Prop :=
  ∀ lex, fragment? = some lex → ∀ offset text, Regular (lex offset text).tokens

section

variable {fragment? : Option (Nat → List Char → Lexed)}

theorem readParts_regular (h : RegularFragments fragment?) (offset : Nat) (ps : List Part) :
    RegularPieces (readParts fragment? offset ps).pieces := by
  induction ps generalizing offset with
  | nil => exact fun _ hmem => absurd hmem List.not_mem_nil
  | cons part rest ih =>
    have hrest := ih (offset + byteWidth part.raw)
    unfold readParts
    cases part.kind with
    | fragment closed =>
      cases fragment? with
      | none => exact hrest
      | some lex =>
        intro place hmem
        obtain hmem | hmem := List.mem_append.1 hmem
        · exact h lex rfl _ _ place hmem
        · exact hrest place hmem
    | _ => exact hrest

theorem readString_regular (h : RegularFragments fragment?) (closed : Bool) (raw : List Char) (span : Span) :
    ∃ multiline pieces, (readString fragment? closed raw span).tokens = [⟨.str multiline pieces, span⟩] ∧
      RegularPieces pieces := by
  unfold readString
  dsimp only
  split <;> exact ⟨_, _, rfl, readParts_regular h _ _⟩

/-- One token more before a regular list. -/
theorem Regular.cons {token : Token} {rest : List Token} (hhere : RegularPlace (token :: rest))
    (hinner : ∀ place ∈ token.kind.places, RegularPlace place) (h : Regular rest) : Regular (token :: rest) := by
  intro place hmem
  rw [places_cons] at hmem
  obtain rfl | hmem := List.mem_cons.1 hmem
  · exact hhere
  · obtain hmem | hmem := List.mem_append.1 hmem
    · exact hinner place hmem
    · exact h place hmem

theorem readLexeme_regular (h : RegularFragments fragment?) (offset : Nat) {lexeme : Lexeme} (hl : lexeme.Regular)
    {rest : List Token} (hrest : Regular rest) : Regular ((readLexeme fragment? offset lexeme).tokens ++ rest) := by
  have htoken {kind : Kind} {span : Span} (hdone : kind.isDone = false) (hk : kind.places = [])
      (hname : ∀ text, kind = .name text ∨ kind = .typeName text → isLabelWord text = false) :
      Regular (⟨kind, span⟩ :: rest) := by
    refine .cons ⟨fun hend => absurd (hend.symm.trans hdone) (by decide), hname⟩ ?_ hrest
    rw [hk]
    exact fun _ hmem => absurd hmem List.not_mem_nil
  unfold readLexeme
  unfold Lexeme.Regular at hl
  cases hkind : lexeme.kind with
  | blank => exact hrest
  | comment => exact hrest
  | stray => exact hrest
  | string closed =>
    obtain ⟨multiline, pieces, htokens, hpieces⟩ :=
      readString_regular h closed lexeme.raw ⟨offset, offset + byteWidth lexeme.raw⟩
    dsimp only
    rw [htokens, List.singleton_append]
    refine .cons ⟨fun hend => absurd hend Bool.false_ne_true, fun text hname => ?_⟩ hpieces hrest
    obtain hname | hname := hname <;> cases hname
  | name =>
    refine htoken rfl rfl fun text hname => ?_
    obtain hname | hname := hname
    · obtain rfl := Kind.name.inj hname
      exact hl (.inl hkind)
    · cases hname
  | typeName =>
    refine htoken rfl rfl fun text hname => ?_
    obtain hname | hname := hname
    · cases hname
    · obtain rfl := Kind.typeName.inj hname
      exact hl (.inr hkind)
  | _ => exact htoken rfl rfl (by simp)

theorem readLexemes_regular (h : RegularFragments fragment?) (offset : Nat) {lexemes : List Lexeme}
    (hl : ∀ lexeme ∈ lexemes, lexeme.Regular) : Regular (readLexemes fragment? offset lexemes).tokens := by
  induction lexemes generalizing offset with
  | nil =>
    refine .cons ⟨fun _ => rfl, fun _ hname => hname.elim nofun nofun⟩ ?_ ?_
    · exact fun _ hmem => absurd hmem List.not_mem_nil
    · exact fun _ hmem => absurd hmem List.not_mem_nil
  | cons lexeme rest ih =>
    rw [readLexemes, Lexed.tokens_append]
    exact readLexeme_regular h offset (hl lexeme List.mem_cons_self)
      (ih _ fun l hmem => hl l (List.mem_cons_of_mem _ hmem))

end

theorem lexAt_regular (limit : Option Nat) (levels offset : Nat) (text : List Char) :
    Regular (lexAt limit levels offset text).tokens := by
  induction levels generalizing offset text with
  | zero =>
    have hnone : RegularFragments none := fun _ hlex => nomatch hlex
    exact readLexemes_regular hnone offset (lexemes_regular _ _)
  | succ levels ih =>
    refine readLexemes_regular (fun lex hlex => ?_) offset (lexemes_regular _ _)
    obtain rfl := Option.some.inj hlex
    exact ih

/-- The tokens of a document are regular. -/
theorem lex_regular (source : String) : Regular (lex source).tokens :=
  lexAt_regular (some faultLimit) fragmentLimit _ _

end JuiceSyntax
