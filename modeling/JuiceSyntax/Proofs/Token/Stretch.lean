/-
  The lexemes of a text where they stand in it. They stand one after another (`stretches`), every
  character of the text is in one of them (`exists_stretch`), and what is read from the text is
  what is read from each of them in its place (`readLexemes_stretches`). A stretch is a token, a
  comment, a blank or a stray character, and the comments and faults that it adds are about its
  own text (`readLexeme_between`).
-/
import JuiceSyntax.Proofs.Token.Layout

namespace JuiceSyntax

/-! ## Lexemes -/

/-- A lexeme that adds a token. -/
def LexemeKind.addsToken : LexemeKind → Bool
  | .blank | .comment | .stray => false
  | _ => true

theorem addsToken_numberAt (text : List Char) : (numberAt text).1.addsToken = true := by
  unfold numberAt
  split
  · dsimp only
    split <;> rfl
  · rfl

theorem addsToken_wordAt (text : List Char) : (wordAt text).1.addsToken = true := by
  unfold wordAt
  dsimp only
  split
  · rfl
  · rfl
  · split
    · rfl
    · split <;> rfl

theorem addsToken_stringAt (text : List Char) : (stringAt text).1.addsToken = true := by
  unfold stringAt
  split <;> rfl

/-- The first character of a mark is a mark. -/
theorem Mark.exists_chars_eq_take (m : Mark) : ∃ first : Mark, first.chars = m.chars.take 1 := by
  have hall : ∀ m ∈ all, ∃ first ∈ all, first.chars = m.chars.take 1 := by decide
  obtain ⟨first, -, h⟩ := hall m (mem_all m)
  exact ⟨first, h⟩

/-- Whether a text begins with a mark is seen from its first character. -/
theorem Mark.ofChars?_eq_none_iff {c : Char} {rest : List Char} :
    Mark.ofChars? (c :: rest) = none ↔ ∀ m : Mark, m.chars ≠ [c] := by
  rw [Mark.ofChars?, List.find?_eq_none]
  constructor
  · intro h m hm
    refine h m (mem_all m) ?_
    rw [hm]
    simp
  · intro h m _ hm
    obtain ⟨first, hfirst⟩ := m.exists_chars_eq_take
    refine h first ?_
    have hpos := chars_length_pos m
    obtain ⟨tail, htail⟩ := List.isPrefixOf_iff_prefix.1 hm
    match hchars : m.chars with
    | [] => simp [hchars] at hpos
    | d :: ds =>
      rw [hchars] at htail hfirst
      rw [hfirst, (List.cons.inj htail).1]
      rfl

theorem lexemeAt_of_blank {c : Char} {rest : List Char} (h : (lexemeAt c rest).1 = .blank) :
    isBlank c = true ∧ (lexemeAt c rest).2 = 1 := by
  unfold lexemeAt at h ⊢
  dsimp only at h ⊢
  split at h
  · rename_i hblank
    rw [if_pos hblank]
    exact ⟨hblank, rfl⟩
  split at h
  · cases h
  split at h
  · exact absurd (addsToken_numberAt _) (by rw [h]; decide)
  split at h
  · exact absurd (addsToken_wordAt _) (by rw [h]; decide)
  split at h
  · cases h
  split at h
  · exact absurd (addsToken_stringAt _) (by rw [h]; decide)
  · split at h
    · cases h
    · cases h

/-- A stray character begins no lexeme, whatever follows it. -/
theorem lexemeAt_of_stray {c : Char} {rest : List Char} (h : (lexemeAt c rest).1 = .stray) (rest' : List Char) :
    lexemeAt c rest' = (.stray, 1) := by
  unfold lexemeAt at h ⊢
  dsimp only at h ⊢
  split at h
  · cases h
  rename_i hblank
  split at h
  · cases h
  split at h
  · exact absurd (addsToken_numberAt _) (by rw [h]; decide)
  rename_i hdigit
  split at h
  · exact absurd (addsToken_wordAt _) (by rw [h]; decide)
  rename_i hname
  split at h
  · cases h
  rename_i hupper
  split at h
  · exact absurd (addsToken_stringAt _) (by rw [h]; decide)
  rename_i hquote
  split at h
  · cases h
  · rename_i hmark
    have hnone := Mark.ofChars?_eq_none_iff.1 hmark
    have hcomment : ¬(['/', '/'].isPrefixOf (c :: rest')) = true := by
      intro hprefix
      have hc : '/' = c := by
        simp only [List.isPrefixOf, Bool.and_eq_true, beq_iff_eq] at hprefix
        exact hprefix.1
      exact hnone .slash (by rw [← hc]; rfl)
    rw [if_neg hblank, if_neg hcomment, if_neg hdigit, if_neg hname, if_neg hupper, if_neg hquote,
      Mark.ofChars?_eq_none_iff.2 hnone]

/-- A blank is one character, and so is a stray one. -/
structure Lexeme.Apt (lexeme : Lexeme) : Prop where
  wide : lexeme.raw ≠ []
  blank : lexeme.kind = .blank → ∃ c, lexeme.raw = [c] ∧ isBlank c = true
  stray : lexeme.kind = .stray → ∃ c, lexeme.raw = [c] ∧ ∀ rest, (firstLexeme c rest).kind = .stray

theorem apt_firstLexeme (c : Char) (rest : List Char) : (firstLexeme c rest).Apt where
  wide := List.length_pos_iff.1 (firstLexeme_length_pos c rest)
  blank h := by
    obtain ⟨hblank, hlength⟩ := lexemeAt_of_blank h
    refine ⟨c, ?_, hblank⟩
    simp [firstLexeme, hlength]
  stray h := by
    have hstray := lexemeAt_of_stray h
    refine ⟨c, ?_, fun rest' => ?_⟩
    · simp [firstLexeme, hstray rest]
    · simp [firstLexeme, hstray rest']

theorem apt_lexemes (text : List Char) : ∀ lexeme ∈ lexemes text, lexeme.Apt := by
  intro lexeme hmem
  obtain ⟨c, rest, rfl⟩ := mem_cutLexemes hmem
  exact apt_firstLexeme c rest

/-! ## Stretches -/

/-- A lexeme where it stands. -/
structure Stretch where
  start : Nat
  lexeme : Lexeme

/-- The lexemes one after another, the first of them at `offset`. -/
def stretches : Nat → List Lexeme → List Stretch
  | _, [] => []
  | offset, lexeme :: rest => ⟨offset, lexeme⟩ :: stretches (offset + byteWidth lexeme.raw) rest

namespace Stretch

def span (s : Stretch) : Span := ⟨s.start, s.start + byteWidth s.lexeme.raw⟩

/-- What is read from a stretch. -/
def lexed (fragment? : Option (Nat → List Char → Lexed)) (s : Stretch) : Lexed := readLexeme fragment? s.start s.lexeme

end Stretch

section

variable {offset : Nat} {ls : List Lexeme}

theorem map_lexeme_stretches (offset : Nat) (ls : List Lexeme) : (stretches offset ls).map (·.lexeme) = ls := by
  induction ls generalizing offset with
  | nil => rfl
  | cons lexeme rest ih => simp only [stretches, List.map_cons, ih]

theorem lexeme_mem_of_stretch {s : Stretch} (h : s ∈ stretches offset ls) : s.lexeme ∈ ls := by
  rw [← map_lexeme_stretches offset ls]
  exact List.mem_map_of_mem h

/-- What is read from a text is what is read from its stretches, and the end. -/
theorem readLexemes_stretches (fragment? : Option (Nat → List Char → Lexed)) (offset : Nat) (ls : List Lexeme) :
    readLexemes fragment? offset ls =
      ⟨(stretches offset ls).flatMap (fun s => (s.lexed fragment?).tokens) ++
          [⟨.done, .point (offset + byteWidth (ls.flatMap (·.raw)))⟩],
        (stretches offset ls).flatMap fun s => (s.lexed fragment?).comments,
        (stretches offset ls).flatMap fun s => (s.lexed fragment?).faults⟩ := by
  induction ls generalizing offset with
  | nil => rfl
  | cons lexeme rest ih =>
    rw [readLexemes, ih, stretches]
    simp only [List.flatMap_cons, byteWidth_append, Nat.add_assoc, List.append_assoc]
    rfl

theorem start_le_of_stretch {s : Stretch} (h : s ∈ stretches offset ls) : offset ≤ s.start := by
  induction ls generalizing offset with
  | nil => exact absurd h List.not_mem_nil
  | cons lexeme rest ih =>
    obtain rfl | hrest := List.mem_cons.1 h
    · exact Nat.le_refl _
    · exact Nat.le_trans (Nat.le_add_right _ _) (ih hrest)

/-- A stretch ends before the next one begins. -/
theorem pairwise_stretches (offset : Nat) (ls : List Lexeme) :
    (stretches offset ls).Pairwise fun s t => s.span.stop ≤ t.span.start := by
  induction ls generalizing offset with
  | nil => exact .nil
  | cons lexeme rest ih => exact .cons (fun s hs => start_le_of_stretch hs) (ih _)

/-- In the text, a stretch reads as its lexeme. -/
theorem slice?_stretch {s : Stretch} (before : List Char) (h : s ∈ stretches (byteWidth before) ls) :
    slice? (before ++ ls.flatMap (·.raw)) s.span = some s.lexeme.raw := by
  induction ls generalizing before with
  | nil => exact absurd h List.not_mem_nil
  | cons lexeme rest ih =>
    rw [List.flatMap_cons, ← List.append_assoc]
    obtain rfl | hrest := List.mem_cons.1 h
    · exact slice?_middle before lexeme.raw _
    · refine ih (before ++ lexeme.raw) ?_
      rwa [byteWidth_append]

/-- Every character of the text stands in one of its stretches. -/
theorem exists_stretch (offset : Nat) {before after : List Char} {c : Char}
    (h : ls.flatMap (·.raw) = before ++ c :: after) :
    ∃ s ∈ stretches offset ls, ∃ front back, s.lexeme.raw = front ++ c :: back ∧
      s.start + byteWidth front = offset + byteWidth before := by
  induction ls generalizing offset before with
  | nil => cases before <;> cases h
  | cons lexeme rest ih =>
    rw [List.flatMap_cons, List.append_eq_append_iff] at h
    obtain ⟨middle, rfl, hrest⟩ | ⟨tail, hraw, htail⟩ := h
    · obtain ⟨s, hmem, front, back, hs, hstart⟩ := ih (offset + byteWidth lexeme.raw) hrest
      refine ⟨s, List.mem_cons_of_mem _ hmem, front, back, hs, ?_⟩
      rw [hstart, byteWidth_append, Nat.add_assoc]
    · cases tail with
      | nil =>
        have hrest : rest.flatMap (·.raw) = [] ++ c :: after := htail.symm
        obtain ⟨s, hmem, front, back, hs, hstart⟩ := ih (offset + byteWidth lexeme.raw) hrest
        refine ⟨s, List.mem_cons_of_mem _ hmem, front, back, hs, ?_⟩
        rw [hstart, hraw, List.append_nil, byteWidth_nil, Nat.add_zero]
      | cons d tail =>
        obtain ⟨rfl, htail⟩ := List.cons.inj htail
        exact ⟨_, List.mem_cons_self, before, tail, hraw, rfl⟩

end

/-! ## What a stretch adds -/

/-- Some text between two offsets. -/
def Span.Between (lo hi : Nat) (span : Span) : Prop := lo ≤ span.start ∧ span.start < span.stop ∧ span.stop ≤ hi

theorem Span.Between.mono {lo lo' hi hi' : Nat} {span : Span} (h : span.Between lo hi) (hlo : lo' ≤ lo) (hhi : hi ≤ hi') :
    span.Between lo' hi' :=
  ⟨Nat.le_trans hlo h.1, h.2.1, Nat.le_trans h.2.2 hhi⟩

/-- These comments and faults are about text between two offsets. -/
structure AllBetween (lo hi : Nat) (comments : List Comment) (faults : List LexFault) : Prop where
  comments : ∀ comment ∈ comments, comment.span.Between lo hi
  faults : ∀ fault ∈ faults, fault.span.Between lo hi

namespace AllBetween

variable {lo hi : Nat} {comments comments' : List Comment} {faults faults' : List LexFault}

theorem nil (lo hi : Nat) : AllBetween lo hi [] [] :=
  ⟨fun _ hmem => absurd hmem List.not_mem_nil, fun _ hmem => absurd hmem List.not_mem_nil⟩

theorem mono {lo' hi' : Nat} (h : AllBetween lo hi comments faults) (hlo : lo' ≤ lo) (hhi : hi ≤ hi') :
    AllBetween lo' hi' comments faults :=
  ⟨fun comment hmem => (h.comments comment hmem).mono hlo hhi, fun fault hmem => (h.faults fault hmem).mono hlo hhi⟩

theorem append (h : AllBetween lo hi comments faults) (h' : AllBetween lo hi comments' faults') :
    AllBetween lo hi (comments ++ comments') (faults ++ faults') :=
  ⟨fun comment hmem => (List.mem_append.1 hmem).elim (h.comments comment) (h'.comments comment),
    fun fault hmem => (List.mem_append.1 hmem).elim (h.faults fault) (h'.faults fault)⟩

theorem cons {fault : LexFault} (hfault : fault.span.Between lo hi) (h : AllBetween lo hi comments faults) :
    AllBetween lo hi comments (fault :: faults) :=
  ⟨h.comments, fun f hmem => (List.mem_cons.1 hmem).elim (fun heq => heq ▸ hfault) (h.faults f)⟩

end AllBetween

/-- The fragments of a text add comments and faults where they stand in it, if they are lexed
at all. -/
def FragmentsBetween (fragment? : Option (Nat → List Char → Lexed)) : Prop :=
  ∀ lex, fragment? = some lex → ∀ offset text,
    AllBetween offset (offset + byteWidth text) (lex offset text).comments (lex offset text).faults

section

variable {fragment? : Option (Nat → List Char → Lexed)}

theorem readParts_between (h : FragmentsBetween fragment?) (offset : Nat) {ps : List Part}
    (hopened : ∀ part ∈ ps, part.Opened) (hraw : ∀ part ∈ ps, part.raw ≠ []) :
    AllBetween offset (offset + byteWidth (ps.flatMap (·.raw))) (readParts fragment? offset ps).comments
      (readParts fragment? offset ps).faults := by
  induction ps generalizing offset with
  | nil => exact .nil _ _
  | cons part rest ih =>
    have hwide := length_le_byteWidth part.raw
    have hpos := List.length_pos_iff.2 (hraw part List.mem_cons_self)
    have hhere : Span.Between offset (offset + byteWidth ((part :: rest).flatMap (·.raw)))
        ⟨offset, offset + byteWidth part.raw⟩ := by
      rw [List.flatMap_cons, byteWidth_append]
      exact ⟨Nat.le_refl _, by dsimp only; omega, by dsimp only; omega⟩
    have hrest : AllBetween offset (offset + byteWidth ((part :: rest).flatMap (·.raw)))
        (readParts fragment? (offset + byteWidth part.raw) rest).comments
        (readParts fragment? (offset + byteWidth part.raw) rest).faults := by
      rw [List.flatMap_cons, byteWidth_append]
      refine (ih _ (fun p hp => hopened p (List.mem_cons_of_mem _ hp))
        (fun p hp => hraw p (List.mem_cons_of_mem _ hp))).mono (by omega) (by omega)
    unfold readParts
    cases hkind : part.kind with
    | text => exact hrest
    | indent => exact hrest
    | escape value => exact hrest
    | badEscape value => exact hrest.cons hhere
    | fragment closed =>
      cases hlex : fragment? with
      | none =>
        subst hlex
        exact hrest.cons hhere
      | some lex =>
        subst hlex
        have hwidth := byteWidth_inner_add_le (hopened part List.mem_cons_self closed hkind)
        refine ((h lex rfl (offset + 2) part.inner).mono (by omega) ?_).append hrest
        rw [List.flatMap_cons, byteWidth_append]
        omega

theorem raw_ne_nil_cutParts (multiline : Bool) (fuel : Nat) (atLineStart : Bool) (content : List Char) :
    ∀ part ∈ cutParts multiline fuel atLineStart content, part.raw ≠ [] :=
  forall_cutParts (fun start c cs => List.length_pos_iff.1 (raw_firstPart multiline start c cs).2) fuel atLineStart content

theorem readString_between (h : FragmentsBetween fragment?) (closed : Bool) {raw : List Char} (hraw : raw ≠ [])
    (span : Span) (hspan : span.start + byteWidth raw ≤ span.stop) :
    AllBetween span.start span.stop (readString fragment? closed raw span).comments
      (readString fragment? closed raw span).faults := by
  obtain ⟨multiline, offset, content, hoffset, hcontent, heq⟩ := readString_parts fragment? closed hraw hspan
  have hbody := readParts_between h offset (opened_cutParts multiline content.length multiline content)
    (raw_ne_nil_cutParts multiline content.length multiline content)
  rw [flatMap_raw_cutParts multiline _ _ content (Nat.le_refl _)] at hbody
  have hbody := hbody.mono hoffset hcontent
  have hwide : span.start < span.stop := by
    have hwidth := length_le_byteWidth raw
    have hpos := List.length_pos_iff.2 hraw
    omega
  rw [heq]
  cases closed with
  | true => exact hbody
  | false => exact hbody.cons ⟨Nat.le_refl _, hwide, Nat.le_refl _⟩

/-- What a lexeme adds is about its own text. -/
theorem readLexeme_between (h : FragmentsBetween fragment?) (offset : Nat) {lexeme : Lexeme} (hraw : lexeme.raw ≠ []) :
    AllBetween offset (offset + byteWidth lexeme.raw) (readLexeme fragment? offset lexeme).comments
      (readLexeme fragment? offset lexeme).faults := by
  have hwide := length_le_byteWidth lexeme.raw
  have hpos := List.length_pos_iff.2 hraw
  have hhere : Span.Between offset (offset + byteWidth lexeme.raw) ⟨offset, offset + byteWidth lexeme.raw⟩ :=
    ⟨Nat.le_refl _, by dsimp only; omega, Nat.le_refl _⟩
  have hcause (cause? : Option LexCause) : AllBetween offset (offset + byteWidth lexeme.raw) []
      (cause?.map fun cause => (⟨cause, ⟨offset, offset + byteWidth lexeme.raw⟩⟩ : LexFault)).toList := by
    cases cause? with
    | none => exact .nil _ _
    | some cause => exact (AllBetween.nil _ _).cons hhere
  unfold readLexeme
  cases lexeme.kind with
  | blank => exact .nil _ _
  | comment => exact ⟨fun comment hmem => List.mem_singleton.1 hmem ▸ hhere, fun _ hmem => absurd hmem List.not_mem_nil⟩
  | stray =>
    refine ⟨fun _ hmem => absurd hmem List.not_mem_nil, fun fault hmem => ?_⟩
    obtain ⟨c, -, rfl⟩ := List.mem_map.1 hmem
    exact hhere
  | string closed => exact readString_between h closed hraw ⟨offset, offset + byteWidth lexeme.raw⟩ (Nat.le_refl _)
  | integer radix => exact hcause _
  | decimal => exact hcause _
  | _ => exact hcause none

/-- So it is with a text. -/
theorem readLexemes_between (h : FragmentsBetween fragment?) (offset : Nat) {ls : List Lexeme}
    (hraw : ∀ lexeme ∈ ls, lexeme.raw ≠ []) :
    AllBetween offset (offset + byteWidth (ls.flatMap (·.raw))) (readLexemes fragment? offset ls).comments
      (readLexemes fragment? offset ls).faults := by
  induction ls generalizing offset with
  | nil => exact .nil _ _
  | cons lexeme rest ih =>
    rw [readLexemes, List.flatMap_cons, byteWidth_append]
    exact ((readLexeme_between h offset (hraw lexeme List.mem_cons_self)).mono (Nat.le_refl _) (by omega)).append
      ((ih _ fun l hl => hraw l (List.mem_cons_of_mem _ hl)).mono (by omega) (by omega))

end

/-! ## Texts -/

/-- How the fragments of a text are lexed with this many levels left. -/
def fragmentsAt (limit : Option Nat) : Nat → Option (Nat → List Char → Lexed)
  | 0 => none
  | levels + 1 => some (lexAt limit levels)

theorem lexAt_eq (limit : Option Nat) (levels offset : Nat) (text : List Char) :
    lexAt limit levels offset text =
      { readLexemes (fragmentsAt limit levels) offset (lexemes text) with
        faults := capFaults limit (readLexemes (fragmentsAt limit levels) offset (lexemes text)).faults } := by
  cases levels <;> rfl

theorem mem_of_mem_capFaults {limit : Option Nat} {faults : List LexFault} {fault : LexFault}
    (h : fault ∈ capFaults limit faults) : fault ∈ faults := by
  cases limit with
  | none => exact h
  | some n => exact List.mem_of_mem_take h

theorem fragmentsAt_between (limit : Option Nat) (levels : Nat) : FragmentsBetween (fragmentsAt limit levels) := by
  induction levels with
  | zero => exact fun _ hlex => nomatch hlex
  | succ levels ih =>
    intro lex hlex offset text
    obtain rfl := Option.some.inj hlex
    rw [lexAt_eq]
    have hbetween := readLexemes_between ih offset (raw_ne_nil_cutLexemes text.length text)
    rw [flatMap_raw_cutLexemes _ text (Nat.le_refl _)] at hbetween
    exact ⟨hbetween.comments, fun fault hmem => hbetween.faults fault (mem_of_mem_capFaults hmem)⟩

/-! ## Tokens and comments of stretches -/

def Token.isString (token : Token) : Bool :=
  match token.kind with
  | .str _ _ => true
  | _ => false

section

variable (fragment? : Option (Nat → List Char → Lexed)) {s : Stretch}

theorem tokens_of_addsToken (h : s.lexeme.kind.addsToken = true) :
    ∃ token : Token, token.kind.isDone = false ∧ token.span = s.span ∧ (s.lexed fragment?).tokens = [token] ∧
      (token.isString = true ∨ (s.lexed fragment?).comments = []) := by
  unfold Stretch.lexed readLexeme
  cases hkind : s.lexeme.kind with
  | blank => rw [hkind] at h; cases h
  | comment => rw [hkind] at h; cases h
  | stray => rw [hkind] at h; cases h
  | string closed => exact ⟨_, rfl, rfl, rfl, .inl rfl⟩
  | _ => exact ⟨_, rfl, rfl, rfl, .inr rfl⟩

theorem tokens_of_not_addsToken (h : s.lexeme.kind.addsToken = false) : (s.lexed fragment?).tokens = [] := by
  unfold Stretch.lexed readLexeme
  cases hkind : s.lexeme.kind with
  | blank => rfl
  | comment => rfl
  | stray => rfl
  | _ => rw [hkind] at h; cases h

theorem comments_of_blank (h : s.lexeme.kind = .blank) : (s.lexed fragment?).comments = [] := by
  unfold Stretch.lexed readLexeme
  rw [h]
  rfl

theorem lexed_of_stray (h : s.lexeme.kind = .stray) :
    s.lexed fragment? = ⟨[], [], s.lexeme.raw.map fun c => ⟨.unexpectedChar c, s.span⟩⟩ := by
  unfold Stretch.lexed readLexeme
  rw [h]
  rfl

theorem comments_of_comment (h : s.lexeme.kind = .comment) :
    (s.lexed fragment?).comments = [⟨s.span, commentText s.lexeme.raw⟩] := by
  unfold Stretch.lexed readLexeme
  rw [h]
  rfl

end

end JuiceSyntax
