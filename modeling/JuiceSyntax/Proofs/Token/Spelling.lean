/-
  How tokens are spelled. A name of a value begins with a small letter or an underscore and is no reserved
  word, a name of a type begins with a capital, and an escape tells the character it stands for.

  `Stream.spelled`: so it is in every stream of a document.
-/
import JuiceSyntax.Proofs.Token.Cutting
import JuiceSyntax.Proofs.Token.Streams

namespace JuiceSyntax

/-! ## Spelling -/

/-- A name of a value, or the name of a macro without its bang. -/
structure NameText (text : String) : Prop where
  starts : ∃ c rest, text.toList = c :: rest ∧ startsName c = true
  within : ∀ c ∈ text.toList, continuesName c = true
  unreserved : Keyword.ofText? text = none
  not_true : text ≠ "true"
  not_false : text ≠ "false"

structure TypeText (text : String) : Prop where
  starts : ∃ c rest, text.toList = c :: rest ∧ isUpper c = true
  within : ∀ c ∈ text.toList, continuesTypeName c = true

/-- A name of any kind, or a word that can stand for one. -/
structure WordText (text : String) : Prop where
  ne_nil : text.toList ≠ []
  within : ∀ c ∈ text.toList, continuesTypeName c = true

theorem NameText.word {text : String} (h : NameText text) : WordText text := by
  obtain ⟨c, rest, htext, -⟩ := h.starts
  refine ⟨by rw [htext]; exact List.cons_ne_nil _ _, fun d hd => ?_⟩
  rw [continuesTypeName, h.within d hd, Bool.or_true]

theorem TypeText.word {text : String} (h : TypeText text) : WordText text := by
  obtain ⟨c, rest, htext, -⟩ := h.starts
  exact ⟨by rw [htext]; exact List.cons_ne_nil _ _, h.within⟩

/-- What an escape stands for: the character after the backslash, if it is none that has a meaning. -/
def escapeValue (raw : String) : Char :=
  ((escape? (raw.toList.drop 1)).map Prod.fst).getD ((raw.toList.drop 1).headD '\\')

def Piece.Spelled : Piece → Prop
  | .escape value raw _ => value = escapeValue raw
  | _ => True

def Kind.Spelled : Kind → Prop
  | .name text | .macroName text => NameText text
  | .typeName text => TypeText text
  | .str _ pieces => ∀ piece ∈ pieces, piece.Spelled
  | _ => True

/-! ## Names -/

def Lexeme.Spelled (lexeme : Lexeme) : Prop :=
  match lexeme.kind with
  | .name => NameText (String.ofList lexeme.raw)
  | .macroName => NameText (String.ofList lexeme.raw.dropLast)
  | .typeName => TypeText (String.ofList lexeme.raw)
  | _ => True

theorem wordAt_spelled {c : Char} (h : startsName c = true) (rest : List Char) :
    Lexeme.Spelled ⟨(wordAt (c :: rest)).1, (c :: rest).take (wordAt (c :: rest)).2⟩ := by
  have hc : continuesName c = true := by
    simp only [startsName, continuesName, Bool.or_eq_true] at h ⊢
    exact h.imp .inl id
  obtain ⟨word, hword⟩ : ∃ word, word = (c :: rest).takeWhile continuesName := ⟨_, rfl⟩
  have hsplit := (List.takeWhile_append_dropWhile (p := continuesName) (l := c :: rest))
  rw [← hword] at hsplit
  have htake : (c :: rest).take word.length = word := by
    rw [← hsplit]
    exact List.take_left
  have hdrop : (c :: rest).drop word.length = (c :: rest).dropWhile continuesName :=
    (congrArg (List.drop word.length) hsplit).symm.trans List.drop_left
  have named (hunreserved : Keyword.ofText? (String.ofList word) = none) (htrue : String.ofList word ≠ "true")
      (hfalse : String.ofList word ≠ "false") : NameText (String.ofList word) := by
    refine ⟨⟨c, rest.takeWhile continuesName, ?_, h⟩, fun d hd => ?_, hunreserved, htrue, hfalse⟩
    · rw [String.toList_ofList, hword, List.takeWhile_cons_of_pos hc]
    · rw [String.toList_ofList, hword] at hd
      exact List.all_eq_true.1 List.all_takeWhile d hd
  unfold wordAt
  dsimp only
  rw [← hword]
  split
  · trivial
  · trivial
  · rename_i htrue hfalse
    split
    · trivial
    · rename_i hunreserved
      split
      · show NameText _
        rw [htake]
        exact named hunreserved htrue hfalse
      · rename_i more _ hbang
        show NameText (String.ofList ((c :: rest).take (word.length + 1)).dropLast)
        rw [hdrop] at hbang
        rw [← hsplit, hbang, List.take_length_add_append, List.take_succ_cons, List.take_zero, List.dropLast_concat]
        exact named hunreserved htrue hfalse
      · show NameText _
        rw [htake]
        exact named hunreserved htrue hfalse

theorem firstLexeme_spelled (c : Char) (rest : List Char) : (firstLexeme c rest).Spelled := by
  have hnumber : ∀ raw, Lexeme.Spelled ⟨(numberAt (c :: rest)).1, raw⟩ := by
    intro raw
    unfold numberAt
    split
    · dsimp only
      split <;> trivial
    · trivial
  have hstring : ∀ raw, Lexeme.Spelled ⟨(stringAt (c :: rest)).1, raw⟩ := by
    intro raw
    unfold stringAt
    split <;> trivial
  unfold firstLexeme lexemeAt
  dsimp only
  split
  · trivial
  split
  · trivial
  split
  · exact hnumber _
  split
  · rename_i hstarts
    exact wordAt_spelled hstarts rest
  split
  · rename_i hupper
    have hc : continuesTypeName c = true := by rw [continuesTypeName, hupper, Bool.true_or]
    show TypeText _
    rw [(List.prefix_iff_eq_take.1 (List.takeWhile_prefix _)).symm]
    refine ⟨⟨c, rest.takeWhile continuesTypeName, ?_, hupper⟩, fun d hd => ?_⟩
    · rw [String.toList_ofList, List.takeWhile_cons_of_pos hc]
    · rw [String.toList_ofList] at hd
      exact List.all_eq_true.1 List.all_takeWhile d hd
  split
  · exact hstring _
  · split
    · trivial
    · trivial

/-! ## Escapes -/

theorem unicodeEscape?_take {rest : List Char} {value : Char} {n : Nat} (h : unicodeEscape? rest = some (value, n)) :
    unicodeEscape? (rest.take n) = some (value, n) := by
  unfold unicodeEscape? at h
  split at h
  · rename_i rest
    dsimp only at h
    split at h
    · cases h
    rename_i hfits
    generalize hline : rest.takeWhile (· != '\x7d') = digits at h hfits
    obtain ⟨code, hcode, h⟩ := Option.bind_eq_some_iff.1 h
    obtain ⟨c, hc, h⟩ := Option.bind_eq_some_iff.1 h
    obtain ⟨rfl, rfl⟩ := Prod.mk.inj (Option.some.inj h)
    simp only [Bool.or_eq_true, not_or, List.isEmpty_iff] at hfits
    obtain ⟨d, tail, htail⟩ := List.exists_cons_of_ne_nil hfits.1.1
    obtain rfl : rest = digits ++ d :: tail := by
      rw [← htail, List.prefix_iff_eq_append.1 (hline ▸ List.takeWhile_prefix _)]
    obtain rfl : d = '\x7d' := by simpa using (takeWhile_eq_iff.1 hline).2 d rfl
    have hstops : (digits ++ ['\x7d']).takeWhile (· != '\x7d') = digits := by
      refine takeWhile_eq_iff.2 ⟨(takeWhile_eq_iff.1 hline).1, fun e he => ?_⟩
      obtain rfl := Option.some.inj he
      rfl
    rw [List.take_succ_cons, List.take_length_add_append, List.take_succ_cons, List.take_zero]
    simp only [unicodeEscape?, hstops, List.drop_left]
    rw [if_neg (by simpa using hfits.imp_left And.right), hcode]
    simp only [bind, Option.bind, hc, pure]
  · rename_i hplain
    split at h
    · cases h
    rename_i hlong
    obtain ⟨code, hcode, h⟩ := Option.bind_eq_some_iff.1 h
    obtain ⟨c, hc, h⟩ := Option.bind_eq_some_iff.1 h
    obtain ⟨rfl, rfl⟩ := Prod.mk.inj (Option.some.inj h)
    unfold unicodeEscape?
    split
    · rename_i more heq
      have hhead := congrArg List.head? heq
      rw [List.head?_take, if_neg (by decide)] at hhead
      cases rest with
      | nil => cases hhead
      | cons d rest =>
        obtain rfl := Option.some.inj hhead
        exact absurd rfl (hplain rest)
    · rw [if_neg (by rw [List.length_take]; omega), List.take_take, Nat.min_self, hcode]
      simp only [bind, Option.bind, hc, pure]

theorem escape?_take {rest : List Char} {value : Char} {n : Nat} (h : escape? rest = some (value, n)) :
    escape? (rest.take n) = some (value, n) := by
  unfold escape? at h
  split at h
  case h_11 more =>
    obtain ⟨⟨c, m⟩, hescape, heq⟩ := Option.map_eq_some_iff.1 h
    obtain ⟨rfl, rfl⟩ := Prod.mk.inj heq
    rw [List.take_succ_cons, escape?, unicodeEscape?_take hescape]
    rfl
  case h_12 => cases h
  all_goals
    obtain ⟨rfl, rfl⟩ := Prod.mk.inj (Option.some.inj h)
    rfl

/-- A character after which no escape is read begins none alone. -/
theorem escape?_singleton {c : Char} {rest : List Char} (h : escape? (c :: rest) = none) : escape? [c] = none := by
  cases halone : escape? [c] with
  | none => rfl
  | some found =>
    unfold escape? at halone
    split at halone
    case h_11 more heq =>
      obtain ⟨-, rfl⟩ := List.cons.inj heq
      cases halone
    case h_12 => cases halone
    all_goals
      rename_i heq
      obtain ⟨rfl, -⟩ := List.cons.inj heq
      cases h

def Part.Spelled (part : Part) : Prop :=
  match part.kind with
  | .escape value | .badEscape value => value = escapeValue (String.ofList part.raw)
  | _ => True

theorem firstPart_spelled (multiline atLineStart : Bool) (content : List Char) :
    (firstPart multiline atLineStart content).Spelled := by
  have read {value : Char} (rest : List Char) (h : value = ((escape? rest).map Prod.fst).getD (rest.headD '\\')) :
      value = escapeValue (String.ofList ('\\' :: rest)) := by
    rw [h, escapeValue, String.toList_ofList, List.drop_one, List.tail_cons]
  unfold firstPart
  split
  · trivial
  split
  · split
    · rename_i rest _ _ value n _ hescape
      refine read (rest.take n) ?_
      rw [escape?_take hescape]
      rfl
    · exact read _ rfl
    · rename_i c more _ hescape
      refine read [c] ?_
      rw [escape?_singleton hescape]
      rfl
  · split <;> trivial
  · trivial

theorem parts_spelled (multiline : Bool) (content : List Char) : ∀ part ∈ parts multiline content, part.Spelled := by
  have cut (fuel : Nat) (atLineStart : Bool) (content : List Char) :
      ∀ part ∈ cutParts multiline fuel atLineStart content, part.Spelled := by
    induction fuel generalizing atLineStart content with
    | zero => exact fun _ hmem => absurd hmem List.not_mem_nil
    | succ fuel ih =>
      cases content with
      | nil => exact fun _ hmem => absurd hmem List.not_mem_nil
      | cons c cs => exact List.forall_mem_cons.2 ⟨firstPart_spelled _ _ _, ih _ _⟩
  exact cut _ _ _

theorem readParts_spelled {ps : List Part} (h : ∀ part ∈ ps, part.Spelled) (fragment? : Option (Nat → List Char → Lexed))
    (offset : Nat) : ∀ piece ∈ (readParts fragment? offset ps).pieces, piece.Spelled := by
  induction ps generalizing offset with
  | nil => exact fun _ hmem => absurd hmem List.not_mem_nil
  | cons part rest ih =>
    obtain ⟨hpart, hrest⟩ := List.forall_mem_cons.1 h
    have later := ih hrest (offset + byteWidth part.raw)
    unfold Part.Spelled at hpart
    unfold readParts
    cases hkind : part.kind with
    | escape value | badEscape value =>
      rw [hkind] at hpart
      exact List.forall_mem_cons.2 ⟨hpart, later⟩
    | text | indent => exact List.forall_mem_cons.2 ⟨trivial, later⟩
    | fragment closed =>
      cases fragment? with
      | none => exact later
      | some lex => exact List.forall_mem_cons.2 ⟨trivial, later⟩

/-! ## Streams -/

theorem readLexeme_spelled {fragment? : Option (Nat → List Char → Lexed)} {offset : Nat} {lexeme : Lexeme} {token : Token}
    (h : lexeme.Spelled) (hread : (readLexeme fragment? offset lexeme).tokens = [token]) : token.kind.Spelled := by
  unfold Lexeme.Spelled at h
  unfold readLexeme at hread
  cases hkind : lexeme.kind with
  | string closed =>
    obtain ⟨multiline, lead, content, -, -, -, heq⟩ := readString_eq closed lexeme.raw
    simp only [hkind, heq] at hread
    cases hread
    exact readParts_spelled (parts_spelled multiline content) _ _
  | blank | comment | stray =>
    rw [hkind] at hread
    cases hread
  | _ =>
    rw [hkind] at hread h
    cases hread
    exact h

/-- Every token of a stream is spelled as its kind is. -/
theorem Stream.spelled {source : String} {tokens : List Token} (h : Stream source tokens) :
    ∀ token ∈ tokens, token.kind.Spelled := by
  intro token hmem
  cases hdone : token.kind.isDone with
  | true =>
    cases hkind : token.kind with
    | done => trivial
    | _ =>
      rw [hkind] at hdone
      cases hdone
  | false =>
    obtain ⟨levels, before, text, after, hstands⟩ := h.stands
    rw [hstands.tokens_eq, lexAt_none] at hmem
    obtain ⟨front, back, lexeme, hread⟩ := exists_readFrom hmem hdone
    have hlexeme : lexeme ∈ lexemes text := hread.lexemes_eq ▸ List.mem_append_right _ List.mem_cons_self
    obtain ⟨c, rest, hfirst⟩ := mem_cutLexemes hlexeme
    exact readLexeme_spelled (hfirst ▸ firstLexeme_spelled c rest) hread.read

end JuiceSyntax
