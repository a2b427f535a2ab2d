/-
  Quoted strings part by part. The body of a string is a content between two margins, of blanks
  and line breaks only (`readString_eq`). A fragment is written as `${`, what is in it, and `}` if
  it is closed (`raw_fragment`); in the string it is the piece that is lexed from just that text
  (`exists_part_of_fragment`).
-/
import JuiceSyntax.Proofs.Token.Scan
import JuiceSyntax.Proofs.Token.Stretch

namespace JuiceSyntax

/-! ## Margins -/

/-- A character of the margins of a multi-line body. -/
def isMargin (c : Char) : Bool := isLineBlank c || c == '\n'

/-- What stands before and after the content of a body, which is multi-line or not. -/
inductive Margins : Bool → List Char → List Char → List Char → Prop
  /-- Where no line break follows the blanks at the start, all is content. -/
  | inline {content : List Char} (broken : ∀ blanks rest, content = blanks ++ '\n' :: rest → blanks.all isLineBlank = false) :
    Margins false [] content []
  /-- There are only blanks behind the line break. -/
  | empty {blanks closing : List Char} (opening : blanks.all isLineBlank = true) (blank : closing.all isLineBlank = true) :
    Margins true (blanks ++ ['\n']) [] closing
  /-- There are only blanks on the last line. -/
  | stripped {blanks content closing : List Char} (opening : blanks.all isLineBlank = true)
    (blank : closing.all isLineBlank = true) : Margins true (blanks ++ ['\n']) content ('\n' :: closing)
  /-- The last line is content. -/
  | kept {blanks front closing : List Char} {c : Char} (opening : blanks.all isLineBlank = true)
    (blank : closing.all isLineBlank = true) (visible : isMargin c = false) :
    Margins true (blanks ++ ['\n']) (front ++ c :: closing) []

theorem all_isMargin {blanks : List Char} (h : blanks.all isLineBlank = true) : blanks.all isMargin = true :=
  List.all_eq_true.2 fun c hc => by simp [isMargin, List.all_eq_true.1 h c hc]

namespace Margins

variable {multiline : Bool} {lead content trail : List Char}

theorem lead_blank (h : Margins multiline lead content trail) : lead.all isMargin = true := by
  have hopening {blanks : List Char} (h : blanks.all isLineBlank = true) : (blanks ++ ['\n']).all isMargin = true := by
    rw [List.all_append, all_isMargin h, Bool.true_and]
    rfl
  cases h with
  | inline => rfl
  | empty opening => exact hopening opening
  | stripped opening => exact hopening opening
  | kept opening => exact hopening opening

theorem trail_blank (h : Margins multiline lead content trail) : trail.all isMargin = true := by
  cases h with
  | inline => rfl
  | empty _ blank => exact all_isMargin blank
  | stripped _ blank =>
    rw [List.all_cons, all_isMargin blank]
    rfl
  | kept => rfl

end Margins

/-- The content of a multi-line body stands between its margins. -/
theorem multilineContent?_eq {body lead content : List Char} (h : multilineContent? body = some (lead, content)) :
    ∃ trail, body = lead ++ content ++ trail ∧ Margins true lead content trail := by
  have hblanks (cs : List Char) : (cs.takeWhile isLineBlank).all isLineBlank = true := List.all_takeWhile
  unfold multilineContent? at h
  split at h
  · rename_i rest hrest
    obtain ⟨rfl, hcontent⟩ := Prod.mk.inj (Option.some.inj h)
    have hbody : body = body.takeWhile isLineBlank ++ ['\n'] ++ rest := by
      rw [List.append_assoc, List.singleton_append, ← hrest, List.takeWhile_append_dropWhile]
    have hreverse := congrArg List.reverse (List.takeWhile_append_dropWhile (p := isLineBlank) (l := rest.reverse))
    have hclosing : (rest.reverse.takeWhile isLineBlank).reverse.all isLineBlank = true := by
      rw [List.all_reverse]
      exact hblanks _
    rw [List.reverse_append, List.reverse_reverse] at hreverse
    split at hcontent
    · rename_i hnil
      subst hcontent
      rw [hnil, List.reverse_nil, List.nil_append] at hreverse
      rw [hreverse] at hclosing
      exact ⟨rest, by rw [List.append_nil]; exact hbody, .empty (hblanks body) hclosing⟩
    · rename_i kept hkept
      refine ⟨'\n' :: (rest.reverse.takeWhile isLineBlank).reverse, ?_, .stripped (hblanks body) hclosing⟩
      rw [← hcontent]
      rw [hkept, List.reverse_cons, List.append_assoc, List.singleton_append] at hreverse
      rw [List.append_assoc, hreverse]
      exact hbody
    · rename_i hne hbreak
      obtain ⟨c, others, hcs⟩ := List.exists_cons_of_ne_nil hne
      have hvisible : isMargin c = false := by
        have hnot : isLineBlank c = false := by
          have hhead := List.head?_dropWhile_not isLineBlank rest.reverse
          rwa [hcs] at hhead
        have hc : c ≠ '\n' := by
          rintro rfl
          exact hbreak others hcs
        simp [isMargin, hnot, hc]
      rw [hcs, List.reverse_cons, List.append_assoc, List.singleton_append] at hreverse
      refine ⟨[], by rw [← hcontent, List.append_nil]; exact hbody, ?_⟩
      rw [← hcontent, ← hreverse]
      exact .kept (hblanks body) hclosing hvisible
  · cases h

theorem inline_of_multilineContent? {body : List Char} (h : multilineContent? body = none) : Margins false [] body [] := by
  refine .inline fun blanks rest hbody => ?_
  by_contra hblank
  rw [Bool.not_eq_false] at hblank
  have hdrop : body.dropWhile isLineBlank = '\n' :: rest := by
    rw [hbody, List.dropWhile_append_of_pos (List.all_eq_true.1 hblank)]
    rfl
  unfold multilineContent? at h
  rw [hdrop] at h
  cases h

/-! ## Markers -/

/-- A marker is of blanks and a bar, and within its line. -/
theorem mem_marker {line : List Char} {n : Nat} (h : indentLength? line = some n) :
    n ≤ line.length ∧ ∀ c ∈ line.take n, c = ' ' ∨ c = '\t' ∨ c = '|' := by
  unfold indentLength? at h
  dsimp only at h
  generalize hblanks : (line.takeWhile fun c => c == ' ' || c == '\t') = blanks at h
  have hstarts : blanks <+: line := hblanks ▸ List.takeWhile_prefix _
  have hall : ∀ c ∈ blanks, c = ' ' ∨ c = '\t' ∨ c = '|' := fun c hc => by
    have hblank := List.mem_takeWhile_imp (hblanks ▸ hc)
    rw [Bool.or_eq_true, beq_iff_eq, beq_iff_eq] at hblank
    exact hblank.imp_right .inl
  obtain ⟨tail, rfl⟩ := hstarts
  rw [List.drop_left] at h
  have hbehind {m : Nat} (hle : m ≤ tail.length) (htail : ∀ c ∈ tail.take m, c = ' ' ∨ c = '\t' ∨ c = '|') :
      blanks.length + m ≤ (blanks ++ tail).length ∧
        ∀ c ∈ (blanks ++ tail).take (blanks.length + m), c = ' ' ∨ c = '\t' ∨ c = '|' := by
    rw [List.length_append, List.take_length_add_append]
    exact ⟨Nat.add_le_add_left hle _, List.forall_mem_append.2 ⟨hall, htail⟩⟩
  split at h
  · obtain rfl := Option.some.inj h
    exact hbehind (by simp) (by simp)
  · split at h
    · rename_i hspace
      obtain rfl := Option.some.inj h
      rw [beq_iff_eq] at hspace
      subst hspace
      exact hbehind (by simp) (by simp)
    · split at h
      · obtain rfl := Option.some.inj h
        exact hbehind (by simp) (by simp)
      · cases h
  · cases h

/-! ## Bodies -/

/-- The body of a string with these characters. -/
def literalBody (closed : Bool) (raw : List Char) : List Char :=
  if closed then (raw.drop 1).dropLast else raw.drop 1

/-- A string is read from the parts of the content of its body, which stands between margins. -/
theorem readString_eq (closed : Bool) (raw : List Char) :
    ∃ multiline lead content trail, literalBody closed raw = lead ++ content ++ trail ∧
      Margins multiline lead content trail ∧ ∀ fragment? span, readString fragment? closed raw span =
        ⟨[⟨.str multiline (readParts fragment? (span.start + 1 + byteWidth lead) (parts multiline content)).pieces, span⟩],
          (readParts fragment? (span.start + 1 + byteWidth lead) (parts multiline content)).comments,
          (if closed then [] else [⟨.unterminatedString, span⟩]) ++
            (readParts fragment? (span.start + 1 + byteWidth lead) (parts multiline content)).faults⟩ := by
  cases hlines : multilineContent? (literalBody closed raw) with
  | none =>
    refine ⟨false, [], literalBody closed raw, [], by simp, inline_of_multilineContent? hlines, fun fragment? span => ?_⟩
    unfold readString
    unfold literalBody at hlines
    dsimp only
    rw [hlines]
    rfl
  | some found =>
    obtain ⟨lead, content⟩ := found
    obtain ⟨trail, hbody, hmargins⟩ := multilineContent?_eq hlines
    refine ⟨true, lead, content, trail, hbody, hmargins, fun fragment? span => ?_⟩
    unfold readString
    unfold literalBody at hlines
    dsimp only
    rw [hlines]

/-! ## Strings as written -/

theorem quote_of_string {c : Char} {rest : List Char} {closed : Bool} (h : (lexemeAt c rest).1 = .string closed) : c = '"' := by
  unfold lexemeAt at h
  dsimp only at h
  split at h
  · cases h
  split at h
  · cases h
  split at h
  · exact absurd h (numberAt_ne_string _ _)
  split at h
  · exact absurd h (wordAt_ne_string _ _)
  split at h
  · cases h
  split at h
  · rename_i hquote
    simpa using hquote
  · split at h
    · cases h
    · cases h

/-- A string as written; one that is closed ends where the scan of it does, and the scan of any
other ends nowhere. -/
theorem raw_of_string {c : Char} {rest : List Char} {closed : Bool} (h : (firstLexeme c rest).kind = .string closed) :
    (firstLexeme c rest).raw = '"' :: literalBody closed (firstLexeme c rest).raw ++ (if closed then ['"'] else []) ∧
      literalLength [.text] (literalBody closed (firstLexeme c rest).raw ++ (if closed then ['"'] else [])) =
        if closed then some ((literalBody closed (firstLexeme c rest).raw).length + 1) else none := by
  obtain rfl := quote_of_string h
  have hlexeme : lexemeAt '"' rest = stringAt ('"' :: rest) := lexemeAt_of_string h
  have hkind : (stringAt ('"' :: rest)).1 = .string closed := hlexeme ▸ h
  have hraw : (firstLexeme '"' rest).raw = ('"' :: rest).take (stringAt ('"' :: rest)).2 := by
    rw [firstLexeme, hlexeme]
  unfold stringAt at hkind hraw
  rw [List.drop_succ_cons, List.drop_zero] at hkind hraw
  cases hlength : literalLength [.text] rest with
  | none =>
    rw [hlength] at hkind hraw
    cases hkind
    dsimp only at hraw
    rw [hraw, List.take_length]
    simpa [literalBody] using hlength
  | some n =>
    rw [hlength] at hkind hraw
    cases hkind
    obtain ⟨inner, rfl, hrest⟩ := exists_inner_of_literalLength hlength
    have htake : rest.take (inner.length + 1) = inner ++ ['"'] := by
      rw [hrest, ← List.singleton_append, ← List.append_assoc]
      exact List.take_left' (by rw [List.length_append]; rfl)
    have hbody : literalBody true ('"' :: (inner ++ ['"'])) = inner := by simp [literalBody]
    dsimp only at hraw
    rw [List.take_succ_cons, htake] at hraw
    rw [hraw, hbody]
    refine ⟨rfl, ?_⟩
    have hclosed : literalLength [.text] ((inner ++ ['"']) ++ rest.drop (inner.length + 1)) = some (inner ++ ['"']).length := by
      rw [← htake, List.take_append_drop, htake, List.length_append]
      exact hlength
    have hown := literalLength_congr hclosed []
    rwa [List.append_nil, List.length_append] at hown

/-! ## Fragments -/

/-- A fragment as written. -/
theorem raw_firstPart_fragment {multiline atLineStart closed : Bool} {content : List Char}
    (h : (firstPart multiline atLineStart content).kind = .fragment closed) :
    (firstPart multiline atLineStart content).raw =
      '$' :: '{' :: (firstPart multiline atLineStart content).inner ++ (if closed then ['}'] else []) := by
  obtain ⟨rest, rfl, ⟨n, hlength, heq⟩ | ⟨-, heq⟩⟩ := firstPart_fragment_cases h
  · rw [heq] at h ⊢
    cases h
    obtain ⟨inner, rfl, hinner⟩ := exists_inner_of_literalLength hlength
    have htake : rest.take (inner.length + 1) = inner ++ ['}'] := by
      rw [hinner, ← List.singleton_append, ← List.append_assoc]
      exact List.take_left' (by rw [List.length_append]; rfl)
    simp [Part.inner, htake]
  · rw [heq] at h ⊢
    cases h
    simp [Part.inner]

/-- What is known of every part of a content. -/
structure Part.Apt (part : Part) : Prop where
  wide : part.raw ≠ []
  fragment : ∀ closed, part.kind = .fragment closed →
    part.raw = '$' :: '{' :: part.inner ++ (if closed then ['}'] else [])

theorem apt_parts (multiline : Bool) (content : List Char) : ∀ part ∈ parts multiline content, part.Apt := by
  refine forall_cutParts (fun atLineStart c cs => ?_) _ _ _
  exact ⟨List.length_pos_iff.1 (raw_firstPart multiline atLineStart c cs).2, fun closed h => raw_firstPart_fragment h⟩

section

variable {fragment? : Option (Nat → List Char → Lexed)} {offset : Nat} {ps : List Part}

/-- A fragment among the pieces is lexed from what is in a part, in its place. -/
theorem exists_part_of_fragment {tokens : List Token} {span : Span}
    (h : .fragment tokens span ∈ (readParts fragment? offset ps).pieces) :
    ∃ front part back closed lex, ps = front ++ part :: back ∧ part.kind = .fragment closed ∧ fragment? = some lex ∧
      span = ⟨offset + byteWidth (front.flatMap (·.raw)), offset + byteWidth (front.flatMap (·.raw)) + byteWidth part.raw⟩ ∧
      tokens = (lex (span.start + 2) part.inner).tokens ∧
      ∀ fault ∈ (lex (span.start + 2) part.inner).faults, fault ∈ (readParts fragment? offset ps).faults := by
  induction ps generalizing offset with
  | nil => exact absurd h List.not_mem_nil
  | cons part rest ih =>
    have hrest (h : .fragment tokens span ∈ (readParts fragment? (offset + byteWidth part.raw) rest).pieces)
        {faults : List LexFault}
        (hfaults : ∀ fault ∈ (readParts fragment? (offset + byteWidth part.raw) rest).faults, fault ∈ faults) :
        ∃ front part' back closed lex, part :: rest = front ++ part' :: back ∧ part'.kind = .fragment closed ∧
          fragment? = some lex ∧ span = ⟨offset + byteWidth (front.flatMap (·.raw)),
            offset + byteWidth (front.flatMap (·.raw)) + byteWidth part'.raw⟩ ∧
          tokens = (lex (span.start + 2) part'.inner).tokens ∧
          ∀ fault ∈ (lex (span.start + 2) part'.inner).faults, fault ∈ faults := by
      obtain ⟨front, part', back, closed, lex, rfl, hkind, hlex, hspan, htokens, hall⟩ := ih h
      refine ⟨part :: front, part', back, closed, lex, rfl, hkind, hlex, ?_, htokens, fun f hf => hfaults f (hall f hf)⟩
      rw [hspan, List.flatMap_cons, byteWidth_append, Nat.add_assoc offset]
    unfold readParts at h ⊢
    cases hkind : part.kind with
    | fragment closed =>
      rw [hkind] at h
      cases hlex : fragment? with
      | none =>
        subst hlex
        exact hrest h fun fault hmem => List.mem_cons_of_mem _ hmem
      | some lex =>
        subst hlex
        obtain heq | h := List.mem_cons.1 h
        · cases heq
          exact ⟨[], part, rest, closed, lex, rfl, hkind, rfl, by simp, rfl, fun fault hmem => List.mem_append_left _ hmem⟩
        · exact hrest h fun fault hmem => List.mem_append_right _ hmem
    | badEscape value =>
      rw [hkind] at h
      obtain heq | h := List.mem_cons.1 h
      · cases heq
      · exact hrest h fun fault hmem => List.mem_cons_of_mem _ hmem
    | _ =>
      rw [hkind] at h
      obtain heq | h := List.mem_cons.1 h
      · cases heq
      · exact hrest h fun _ hmem => hmem

end

end JuiceSyntax
