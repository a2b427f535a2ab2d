/-
  The comments of a document. A comment stands in a text if it is one of its lexemes, or if it stands between
  the braces of a fragment of one of its strings (`Comment.StandsIn`). What is read from a text are the
  comments that stand in it (`mem_comments_lexAt`), in the order of their starts (`lexAt_inTurn`).

  A comment is on one line (`Comment.StandsIn.feed_notMem`), and none begins where a token of the document does
  (`start_ne_of_token`): it is a stretch of its own, or it is behind the quote of a string.
-/
import JuiceSyntax.Proofs.Token.Fragments
import JuiceSyntax.Proofs.Token.Tiling

namespace JuiceSyntax

/-! ## What stands in a text -/

/-- What stands in the body of a string before its content, the content, and whether it is over several lines. -/
def literalContent (closed : Bool) (raw : List Char) : List Char × List Char × Bool :=
  match multilineContent? (literalBody closed raw) with
  | some (lead, content) => (lead, content, true)
  | none => ([], literalBody closed raw, false)

/-- The comment stands in a text that begins at `offset` and in which fragments may nest `levels` deep. -/
inductive Comment.StandsIn (comment : Comment) : Nat → Nat → List Char → Prop
  | lexeme {levels offset start : Nat} {text raw : List Char} {front back : List Lexeme}
    (split : lexemes text = front ++ ⟨.comment, raw⟩ :: back) (place : start = offset + byteWidth (front.flatMap (·.raw)))
    (eq : comment = ⟨⟨start, start + byteWidth raw⟩, commentText raw⟩) : StandsIn comment levels offset text
  | fragment {levels offset start : Nat} {text raw lead content : List Char} {closed multiline closed' : Bool}
    {front back : List Lexeme} {ps qs : List Part} {part : Part}
    (split : lexemes text = front ++ ⟨.string closed, raw⟩ :: back)
    (place : start = offset + byteWidth (front.flatMap (·.raw)))
    (layout : literalContent closed raw = (lead, content, multiline))
    (piece : parts multiline content = ps ++ part :: qs) (kind : part.kind = .fragment closed')
    (inner : StandsIn comment levels (start + 1 + byteWidth lead + byteWidth (ps.flatMap (·.raw)) + 2) part.inner) :
    StandsIn comment (levels + 1) offset text

/-- A place in a list is its head, or a place in its tail. -/
theorem exists_split_cons {α : Type} {a : α} {l : List α} {P : List α → α → Prop} :
    (∃ front x back, a :: l = front ++ x :: back ∧ P front x) ↔
      P [] a ∨ ∃ front x back, l = front ++ x :: back ∧ P (a :: front) x := by
  constructor
  · rintro ⟨front, x, back, hsplit, h⟩
    cases front with
    | nil =>
      obtain ⟨rfl, -⟩ := List.cons.inj hsplit
      exact .inl h
    | cons b front =>
      obtain ⟨rfl, hrest⟩ := List.cons.inj hsplit
      exact .inr ⟨front, x, back, hrest, h⟩
  · rintro (h | ⟨front, x, back, rfl, h⟩)
    · exact ⟨[], a, l, rfl, h⟩
    · exact ⟨a :: front, x, back, rfl, h⟩

/-- The comments in a part, if fragments are lexed at all. -/
def Part.comments (fragment? : Option (Nat → List Char → Lexed)) (offset : Nat) (part : Part) : List Comment :=
  match part.kind, fragment? with
  | .fragment _, some lex => (lex (offset + 2) part.inner).comments
  | _, _ => []

section

variable {fragment? : Option (Nat → List Char → Lexed)} {comment : Comment}

theorem comments_readParts_cons (fragment? : Option (Nat → List Char → Lexed)) (offset : Nat) (part : Part) (rest : List Part) :
    (readParts fragment? offset (part :: rest)).comments =
      part.comments fragment? offset ++ (readParts fragment? (offset + byteWidth part.raw) rest).comments := by
  conv => lhs; unfold readParts
  unfold Part.comments
  cases part.kind with
  | fragment closed => cases fragment? <;> rfl
  | _ => rfl

theorem Part.mem_comments_iff {offset : Nat} {part : Part} :
    comment ∈ part.comments fragment? offset ↔
      ∃ closed lex, part.kind = .fragment closed ∧ fragment? = some lex ∧ comment ∈ (lex (offset + 2) part.inner).comments := by
  unfold Part.comments
  cases hkind : part.kind with
  | fragment closed => cases fragment? <;> simp
  | _ => simp

theorem mem_comments_readParts {offset : Nat} {ps : List Part} :
    comment ∈ (readParts fragment? offset ps).comments ↔
      ∃ front part back, ps = front ++ part :: back ∧
        comment ∈ part.comments fragment? (offset + byteWidth (front.flatMap (·.raw))) := by
  induction ps generalizing offset with
  | nil => simp [readParts]
  | cons part rest ih =>
    rw [comments_readParts_cons, List.mem_append, ih, exists_split_cons]
    simp only [List.flatMap_nil, byteWidth_nil, Nat.add_zero, List.flatMap_cons, byteWidth_append, Nat.add_assoc]

theorem comments_readString (fragment? : Option (Nat → List Char → Lexed)) {closed multiline : Bool} {raw lead content : List Char}
    (h : literalContent closed raw = (lead, content, multiline)) (span : Span) :
    (readString fragment? closed raw span).comments =
      (readParts fragment? (span.start + 1 + byteWidth lead) (parts multiline content)).comments := by
  have hread : (readString fragment? closed raw span).comments =
      (readParts fragment? (span.start + 1 + byteWidth (literalContent closed raw).1)
        (parts (literalContent closed raw).2.2 (literalContent closed raw).2.1)).comments := rfl
  rw [hread, h]

theorem mem_comments_readLexeme {offset : Nat} {lexeme : Lexeme} :
    comment ∈ (readLexeme fragment? offset lexeme).comments ↔
      (lexeme.kind = .comment ∧ comment = ⟨⟨offset, offset + byteWidth lexeme.raw⟩, commentText lexeme.raw⟩) ∨
        ∃ closed, lexeme.kind = .string closed ∧
          comment ∈ (readString fragment? closed lexeme.raw ⟨offset, offset + byteWidth lexeme.raw⟩).comments := by
  unfold readLexeme
  cases hkind : lexeme.kind with
  | comment => simp
  | string closed => simp
  | blank => simp [Lexed.empty]
  | _ => simp

theorem mem_comments_readLexemes {offset : Nat} {ls : List Lexeme} :
    comment ∈ (readLexemes fragment? offset ls).comments ↔
      ∃ front lexeme back, ls = front ++ lexeme :: back ∧
        comment ∈ (readLexeme fragment? (offset + byteWidth (front.flatMap (·.raw))) lexeme).comments := by
  induction ls generalizing offset with
  | nil => simp [readLexemes]
  | cons lexeme rest ih =>
    rw [readLexemes, Lexed.comments_append, List.mem_append, ih, exists_split_cons]
    simp only [List.flatMap_nil, byteWidth_nil, Nat.add_zero, List.flatMap_cons, byteWidth_append, Nat.add_assoc]

theorem comments_lexAt (limit : Option Nat) (levels offset : Nat) (text : List Char) :
    (lexAt limit levels offset text).comments = (readLexemes (fragmentsAt limit levels) offset (lexemes text)).comments := by
  rw [lexAt_eq]

/-- What is read from a text stands in it, if that is so with its fragments. -/
theorem standsIn_of_mem {levels offset : Nat} {text : List Char}
    (hfragments : ∀ lex, fragment? = some lex → ∃ inner, levels = inner + 1 ∧
      ∀ offset text, comment ∈ (lex offset text).comments → comment.StandsIn inner offset text)
    (h : comment ∈ (readLexemes fragment? offset (lexemes text)).comments) : comment.StandsIn levels offset text := by
  obtain ⟨front, ⟨kind, raw⟩, back, hsplit, hmem⟩ := mem_comments_readLexemes.1 h
  obtain ⟨rfl, heq⟩ | ⟨closed, rfl, hstring⟩ := mem_comments_readLexeme.1 hmem
  · exact .lexeme hsplit rfl heq
  · rcases hlayout : literalContent closed raw with ⟨lead, content, multiline⟩
    rw [comments_readString _ hlayout] at hstring
    obtain ⟨ps, part, qs, hpiece, hpart⟩ := mem_comments_readParts.1 hstring
    obtain ⟨closed', lex, hkind, hlex, hinner⟩ := Part.mem_comments_iff.1 hpart
    obtain ⟨inner, rfl, hstands⟩ := hfragments lex hlex
    exact .fragment hsplit rfl hlayout hpiece hkind (hstands _ _ hinner)

/-- The comments that are read from a text are those that stand in it. -/
theorem mem_comments_lexAt {limit : Option Nat} {levels offset : Nat} {text : List Char} :
    comment ∈ (lexAt limit levels offset text).comments ↔ comment.StandsIn levels offset text := by
  constructor
  · intro h
    induction levels generalizing offset text with
    | zero =>
      rw [comments_lexAt] at h
      exact standsIn_of_mem (fun lex hlex => nomatch (show none = some lex from hlex)) h
    | succ levels ih =>
      rw [comments_lexAt] at h
      refine standsIn_of_mem (fun lex hlex => ⟨levels, rfl, ?_⟩) h
      obtain rfl := Option.some.inj hlex
      exact fun _ _ => ih
  · intro h
    rw [comments_lexAt]
    induction h with
    | lexeme split place eq =>
      subst place
      exact mem_comments_readLexemes.2 ⟨_, _, _, split, mem_comments_readLexeme.2 (.inl ⟨rfl, eq⟩)⟩
    | fragment split place layout piece kind _ ih =>
      subst place
      refine mem_comments_readLexemes.2 ⟨_, _, _, split, mem_comments_readLexeme.2 (.inr ⟨_, rfl, ?_⟩)⟩
      rw [comments_readString _ layout]
      refine mem_comments_readParts.2 ⟨_, _, _, piece, Part.mem_comments_iff.2 ⟨_, _, kind, rfl, ?_⟩⟩
      rw [comments_lexAt]
      exact ih

end

/-- A comment is on one line. -/
theorem Comment.StandsIn.feed_notMem {comment : Comment} {levels offset : Nat} {text : List Char}
    (h : comment.StandsIn levels offset text) : '\n' ∉ comment.text.toList := by
  induction h with
  | @lexeme _ _ _ text raw _ _ split _ eq =>
    subst eq
    intro hmem
    rw [commentText, String.toList_ofList, List.mem_reverse] at hmem
    have hraw : '\n' ∈ raw := List.mem_reverse.1 ((List.dropWhile_sublist _).subset hmem)
    have hlexeme : (⟨.comment, raw⟩ : Lexeme) ∈ lexemes text := split ▸ List.mem_append_right _ List.mem_cons_self
    obtain ⟨c, rest, hfirst⟩ := mem_cutLexemes hlexeme
    obtain ⟨body, hbody, hline⟩ := raw_of_comment (show (firstLexeme c rest).kind = .comment by rw [← hfirst])
    rw [← hfirst] at hbody
    rw [show raw = '/' :: '/' :: body from hbody, ← hline] at hraw
    simpa using List.mem_takeWhile_imp hraw
  | fragment _ _ _ _ _ _ ih => exact ih

/-! ## Their order -/

/-- Each comment begins before the next one. -/
def InTurn (comments : List Comment) : Prop := comments.Pairwise fun a b => a.span.start < b.span.start

/-- The comments of every fragment of a text come in turn, if fragments are lexed at all. -/
def FragmentsInTurn (fragment? : Option (Nat → List Char → Lexed)) : Prop :=
  ∀ lex, fragment? = some lex → ∀ offset text, InTurn (lex offset text).comments

section

variable {fragment? : Option (Nat → List Char → Lexed)}

theorem Part.inTurn_comments (h : FragmentsInTurn fragment?) (offset : Nat) (part : Part) :
    InTurn (part.comments fragment? offset) := by
  unfold Part.comments
  split
  · exact h _ rfl _ _
  · exact .nil

theorem Part.between_comments (h : FragmentsBetween fragment?) {offset : Nat} {part : Part} (hopened : part.Opened) :
    ∀ comment ∈ part.comments fragment? offset, comment.span.Between offset (offset + byteWidth part.raw) := by
  intro comment hmem
  obtain ⟨closed, lex, hkind, hlex, hinner⟩ := Part.mem_comments_iff.1 hmem
  have hwidth := byteWidth_inner_add_le (hopened closed hkind)
  exact ((h lex hlex _ _).comments comment hinner).mono (by omega) (by omega)

theorem readParts_inTurn (h : FragmentsInTurn fragment?) (hbetween : FragmentsBetween fragment?) (offset : Nat)
    {ps : List Part} (hopened : ∀ part ∈ ps, part.Opened) (hraw : ∀ part ∈ ps, part.raw ≠ []) :
    InTurn (readParts fragment? offset ps).comments := by
  induction ps generalizing offset with
  | nil => exact .nil
  | cons part rest ih =>
    obtain ⟨hopened, hopened'⟩ := List.forall_mem_cons.1 hopened
    obtain ⟨-, hraw'⟩ := List.forall_mem_cons.1 hraw
    have hbehind := readParts_between hbetween (offset + byteWidth part.raw) hopened' hraw'
    rw [comments_readParts_cons, InTurn, List.pairwise_append]
    refine ⟨part.inTurn_comments h offset, ih _ hopened' hraw', fun comment hmem later hlater => ?_⟩
    obtain ⟨-, hwide, hstop⟩ := Part.between_comments hbetween hopened comment hmem
    obtain ⟨hstart, -, -⟩ := hbehind.comments later hlater
    omega

/-- The comments of a string come in turn, behind its quote. -/
theorem comments_of_string (h : FragmentsInTurn fragment?) (hbetween : FragmentsBetween fragment?) (closed : Bool)
    (raw : List Char) (span : Span) :
    InTurn (readString fragment? closed raw span).comments ∧
      ∀ comment ∈ (readString fragment? closed raw span).comments, span.start < comment.span.start := by
  rcases hlayout : literalContent closed raw with ⟨lead, content, multiline⟩
  have hopened := opened_cutParts multiline content.length multiline content
  have hraw := raw_ne_nil_cutParts multiline content.length multiline content
  rw [comments_readString _ hlayout]
  refine ⟨readParts_inTurn h hbetween _ hopened hraw, fun comment hmem => ?_⟩
  obtain ⟨hstart, -, -⟩ := (readParts_between hbetween (span.start + 1 + byteWidth lead) hopened hraw).comments comment hmem
  omega

theorem Stretch.inTurn_comments (h : FragmentsInTurn fragment?) (hbetween : FragmentsBetween fragment?) (s : Stretch) :
    InTurn (s.lexed fragment?).comments := by
  unfold Stretch.lexed readLexeme
  cases s.lexeme.kind with
  | comment => exact List.pairwise_singleton _ _
  | string closed => exact (comments_of_string h hbetween closed _ _).1
  | _ => exact .nil

theorem readLexemes_inTurn (h : FragmentsInTurn fragment?) (hbetween : FragmentsBetween fragment?) (offset : Nat)
    {ls : List Lexeme} (hraw : ∀ lexeme ∈ ls, lexeme.raw ≠ []) : InTurn (readLexemes fragment? offset ls).comments := by
  rw [readLexemes_stretches, InTurn]
  refine List.pairwise_flatMap.2 ⟨fun s _ => s.inTurn_comments h hbetween, ?_⟩
  refine (pairwise_stretches offset ls).imp_of_mem fun {s t} hs ht hapart comment hmem later hlater => ?_
  have hhere := readLexeme_between hbetween s.start (hraw _ (lexeme_mem_of_stretch hs))
  have hthere := readLexeme_between hbetween t.start (hraw _ (lexeme_mem_of_stretch ht))
  obtain ⟨-, hwide, hstop⟩ := hhere.comments comment hmem
  obtain ⟨hstart, -, -⟩ := hthere.comments later hlater
  have hapart : s.start + byteWidth s.lexeme.raw ≤ t.start := hapart
  omega

end

/-- The comments of a text come in turn. -/
theorem lexAt_inTurn (limit : Option Nat) (levels offset : Nat) (text : List Char) :
    InTurn (lexAt limit levels offset text).comments := by
  induction levels generalizing offset text with
  | zero =>
    have hnone : FragmentsInTurn none := fun _ hlex => nomatch hlex
    rw [comments_lexAt]
    exact readLexemes_inTurn hnone (fragmentsAt_between limit 0) offset (raw_ne_nil_cutLexemes _ text)
  | succ levels ih =>
    rw [comments_lexAt]
    refine readLexemes_inTurn (fun lex hlex => ?_) (fragmentsAt_between limit (levels + 1)) offset (raw_ne_nil_cutLexemes _ text)
    obtain rfl := Option.some.inj hlex
    exact ih

theorem fragmentsAt_inTurn (limit : Option Nat) (levels : Nat) : FragmentsInTurn (fragmentsAt limit levels) := by
  intro lex hlex offset text
  cases levels with
  | zero => cases hlex
  | succ levels =>
    obtain rfl := Option.some.inj hlex
    exact lexAt_inTurn limit levels offset text

/-! ## Documents -/

/-- The comment stands in the document, behind its `#!` line. -/
def Comment.StandsInDocument (source : String) (comment : Comment) : Prop :=
  comment.StandsIn fragmentLimit (byteWidth (shebangLine source.toList))
    (source.toList.drop (shebangLine source.toList).length)

section

variable {source : String} {comment : Comment}

theorem mem_comments_lex : comment ∈ (lex source).comments ↔ comment.StandsInDocument source := mem_comments_lexAt

theorem inTurn_comments_lex (source : String) : InTurn (lex source).comments := lexAt_inTurn _ _ _ _

/-- A comment of a stretch that adds a token is behind the start of that. -/
theorem start_lt_of_addsToken {s : Stretch} (hadds : s.lexeme.kind.addsToken = true)
    (hmem : comment ∈ (s.lexed (fragmentsAt (some faultLimit) fragmentLimit)).comments) : s.start < comment.span.start := by
  obtain ⟨hkind, -⟩ | ⟨closed, -, hstring⟩ := mem_comments_readLexeme.1 hmem
  · rw [hkind] at hadds
    cases hadds
  · exact (comments_of_string (fragmentsAt_inTurn _ _) (fragmentsAt_between _ _) closed _ _).2 comment hstring

/-- No comment of a document begins where a token does. -/
theorem start_ne_of_token (hcomment : comment ∈ (lex source).comments) {token : Token}
    (htoken : token ∈ (lex source).tokens.dropLast) : comment.span.start ≠ token.span.start := by
  obtain ⟨htokens, hcomments, -⟩ := lexWithin_stretches (some faultLimit) source
  have hcomments : (lex source).comments = _ := hcomments
  have htokens : (lex source).tokens = _ := htokens
  rw [hcomments] at hcomment
  rw [htokens, List.dropLast_concat] at htoken
  obtain ⟨s, hs, hcomment⟩ := List.mem_flatMap.1 hcomment
  obtain ⟨t, ht, htoken⟩ := List.mem_flatMap.1 htoken
  have hadds : t.lexeme.kind.addsToken = true := by
    by_contra hnot
    rw [tokens_of_not_addsToken _ (by simpa using hnot)] at htoken
    exact List.not_mem_nil htoken
  obtain ⟨own, -, hspan, hown, -⟩ := tokens_of_addsToken (fragmentsAt (some faultLimit) fragmentLimit) hadds
  rw [hown, List.mem_singleton] at htoken
  rw [htoken, hspan]
  obtain ⟨hstart, hwide, hstop⟩ := (between_stretch hs (some faultLimit)).comments comment hcomment
  by_cases hsame : s = t
  · subst hsame
    exact Nat.ne_of_gt (start_lt_of_addsToken hadds hcomment)
  · have := start_lt_stop_of_stretch ht
    obtain hapart | hapart := apart_stretchesOf hs ht hsame
    · omega
    · omega

end

end JuiceSyntax
