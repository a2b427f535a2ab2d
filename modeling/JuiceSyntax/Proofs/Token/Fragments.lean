/-
  Fragments as the scan of a literal and as the lexer see them.

  In a fragment the scan passes a lexeme as a whole (`scan_lexeme`): it counts the braces that are
  lexemes, goes through strings as the lexer does, and stays in a comment to the end of the line.
  So a text at whose end the scan leaves a fragment has balanced braces and no open string
  (`closes_of_scan`), and the other way round (`literalLength_of_closes`).
-/
import JuiceSyntax.Proofs.Token.Cutting
import JuiceSyntax.Proofs.Grammar.Matching

namespace JuiceSyntax

/-! ## Characters that mean nothing to the scan -/

/-- A character that is no brace, quote or slash. -/
def isInert (c : Char) : Bool := c != '{' && c != '}' && c != '"' && c != '/'

/-- A class of characters without these four. -/
def Inert (p : Char → Bool) : Prop := p '{' = false ∧ p '}' = false ∧ p '"' = false ∧ p '/' = false

instance (p : Char → Bool) : Decidable (Inert p) := inferInstanceAs (Decidable (_ ∧ _))

theorem Inert.char {p : Char → Bool} (hp : Inert p) {c : Char} (h : p c = true) : isInert c = true := by
  obtain ⟨hopening, hclosing, hquote, hslash⟩ := hp
  have hne {d : Char} (hd : p d = false) : c ≠ d := by
    rintro rfl
    exact absurd (h.symm.trans hd) (by decide)
  simp [isInert, hne hopening, hne hclosing, hne hquote, hne hslash]

theorem Inert.takeWhile {p : Char → Bool} (hp : Inert p) (text : List Char) :
    ∀ c ∈ text.take (text.takeWhile p).length, isInert c = true := by
  rw [← List.prefix_iff_eq_take.1 (List.takeWhile_prefix p)]
  exact fun c hc => hp.char (List.mem_takeWhile_imp hc)

theorem scan_inert {cs : List Char} (h : ∀ c ∈ cs, isInert c = true) (braces : Nat) (modes : List QuoteMode)
    (more : List Char) : Scan (.code braces :: modes) (cs ++ more) (.code braces :: modes) more := by
  induction cs with
  | nil => exact .here
  | cons c cs ih =>
    have hc := h c List.mem_cons_self
    simp only [isInert, Bool.and_eq_true, bne_iff_ne] at hc
    obtain ⟨⟨⟨hopening, hclosing⟩, hquote⟩, hslash⟩ := hc
    exact .step (scanStep?_code braces modes hopening hclosing hquote fun heq => absurd heq hslash)
      (ih fun d hd => h d (List.mem_cons_of_mem _ hd))

/-! ## Lexemes that mean nothing to the scan -/

theorem forall_mem_take_add {p : Char → Prop} {text : List Char} {m n : Nat} (h : ∀ c ∈ text.take m, p c)
    (h' : ∀ c ∈ (text.drop m).take n, p c) : ∀ c ∈ text.take (m + n), p c := by
  rw [List.take_add]
  exact List.forall_mem_append.2 ⟨h, h'⟩

theorem fraction_inert (text : List Char) : ∀ c ∈ text.take (fractionLength text), isInert c = true := by
  unfold fractionLength
  split
  · exact fun c hc => absurd hc (by simp)
  · rename_i rest _
    rw [List.take_succ_cons]
    exact List.forall_mem_cons.2 ⟨by decide, (show Inert continuesNumber by decide).takeWhile rest⟩
  · exact fun c hc => absurd hc (by simp)

theorem numberAt_inert (text : List Char) : ∀ c ∈ text.take (numberAt text).2, isInert c = true := by
  have hdigits := (show Inert continuesNumber by decide).takeWhile text
  unfold numberAt
  split
  · dsimp only
    split
    · exact hdigits
    · exact forall_mem_take_add hdigits (fraction_inert _)
  · rename_i hradix
    dsimp only
    rw [Nat.add_comm]
    refine forall_mem_take_add ?_ ((show Inert continuesTypeName by decide).takeWhile _)
    unfold radixAt at hradix
    split at hradix
    · simp; decide
    · simp; decide
    · simp; decide
    · exact absurd rfl hradix

theorem wordAt_inert (text : List Char) : ∀ c ∈ text.take (wordAt text).2, isInert c = true := by
  have hword := (show Inert continuesName by decide).takeWhile text
  rw [wordAt_eq]
  unfold wordBefore
  split
  · exact hword
  · exact hword
  · split
    · exact hword
    · obtain h | h := nameBefore_cases (text.takeWhile continuesName) (text.drop (text.takeWhile continuesName).length)
      · rw [h]
        exact hword
      · obtain ⟨tail, htail, -⟩ := nameBefore_eq_macroName_iff.1 h
        rw [h]
        refine forall_mem_take_add hword ?_
        rw [htail]
        simp
        decide

/-- What a lexeme is to the scan of a literal. -/
def LexemeKind.isPlain : LexemeKind → Bool
  | .comment | .string _ | .mark .lBrace | .mark .rBrace | .mark .slash => false
  | _ => true

theorem chars_inert {m : Mark} (h : (LexemeKind.mark m).isPlain = true) : ∀ c ∈ m.chars, isInert c = true := by
  refine List.all_eq_true.1 ?_
  revert h
  cases m <;> decide

theorem lexeme_inert {c : Char} {rest : List Char} (h : (firstLexeme c rest).kind.isPlain = true) :
    ∀ d ∈ (firstLexeme c rest).raw, isInert d = true := by
  have hkind : (lexemeAt c rest).1.isPlain = true := h
  show ∀ d ∈ (c :: rest).take (lexemeAt c rest).2, isInert d = true
  unfold lexemeAt at hkind ⊢
  dsimp only at hkind ⊢
  split at hkind
  · rename_i hblank
    rw [if_pos hblank]
    simp [(show Inert isBlank by decide).char hblank]
  rename_i hblank
  split at hkind
  · cases hkind
  rename_i hcomment
  rw [if_neg hblank, if_neg hcomment]
  split at hkind
  · rename_i hdigit
    rw [if_pos hdigit]
    exact numberAt_inert _
  rename_i hdigit
  rw [if_neg hdigit]
  split at hkind
  · rename_i hname
    rw [if_pos hname]
    exact wordAt_inert _
  rename_i hname
  rw [if_neg hname]
  split at hkind
  · rename_i hupper
    rw [if_pos hupper]
    exact (show Inert continuesTypeName by decide).takeWhile _
  rename_i hupper
  rw [if_neg hupper]
  split at hkind
  · unfold stringAt at hkind
    split at hkind <;> cases hkind
  rename_i hquote
  rw [if_neg hquote]
  split at hkind
  · rename_i m hm
    dsimp only at hkind ⊢
    rw [← List.prefix_iff_eq_take.1 (Mark.prefix_of_ofChars? hm)]
    exact chars_inert hkind
  · rename_i hnone
    have hmark := Mark.ofChars?_eq_none_iff.1 hnone
    have hne (m : Mark) {d : Char} (hd : m.chars = [d]) : c ≠ d := fun heq => hmark m (heq ▸ hd)
    simp only [List.take_succ_cons, List.take_zero, List.mem_singleton, forall_eq]
    simp [isInert, hne .lBrace rfl, hne .rBrace rfl, hne .slash rfl]
    simpa using hquote

/-! ## Comments and marks -/

theorem numberAt_ne_mark (text : List Char) (m : Mark) : (numberAt text).1 ≠ .mark m := by
  unfold numberAt
  split
  · dsimp only
    split <;> simp
  · simp

theorem wordAt_ne_mark (text : List Char) (m : Mark) : (wordAt text).1 ≠ .mark m := by
  unfold wordAt
  dsimp only
  split
  · simp
  · simp
  · split
    · simp
    · split <;> simp

/-- A comment is two slashes and the rest of the line. -/
theorem raw_of_comment {c : Char} {rest : List Char} (h : (firstLexeme c rest).kind = .comment) :
    ∃ body, (firstLexeme c rest).raw = '/' :: '/' :: body ∧ (c :: rest).takeWhile (· != '\n') = '/' :: '/' :: body := by
  have hkind : (lexemeAt c rest).1 = .comment := h
  have hraw : (firstLexeme c rest).raw = (c :: rest).take (lexemeAt c rest).2 := rfl
  unfold lexemeAt at hkind hraw
  dsimp only at hkind hraw
  split at hkind
  · cases hkind
  rename_i hblank
  split at hkind
  · rename_i hcomment
    rw [if_neg hblank, if_pos hcomment, ← List.prefix_iff_eq_take.1 (List.takeWhile_prefix _)] at hraw
    obtain ⟨body, hbody⟩ := List.isPrefixOf_iff_prefix.1 hcomment
    refine ⟨body.takeWhile (· != '\n'), ?_, ?_⟩
    · rw [hraw, ← hbody]
      rfl
    · rw [← hbody]
      rfl
  split at hkind
  · exact absurd (addsToken_numberAt _) (by rw [hkind]; decide)
  split at hkind
  · exact absurd (addsToken_wordAt _) (by rw [hkind]; decide)
  split at hkind
  · cases hkind
  split at hkind
  · exact absurd (addsToken_stringAt _) (by rw [hkind]; decide)
  · split at hkind
    · cases hkind
    · cases hkind

/-- A mark is its characters, and a slash before a slash is none. -/
theorem raw_of_mark {c : Char} {rest : List Char} {m : Mark} (h : (firstLexeme c rest).kind = .mark m) :
    (firstLexeme c rest).raw = m.chars ∧ (c = '/' → rest.head? ≠ some '/') := by
  have hkind : (lexemeAt c rest).1 = .mark m := h
  have hraw : (firstLexeme c rest).raw = (c :: rest).take (lexemeAt c rest).2 := rfl
  unfold lexemeAt at hkind hraw
  dsimp only at hkind hraw
  split at hkind
  · cases hkind
  rename_i hblank
  split at hkind
  · cases hkind
  rename_i hcomment
  split at hkind
  · exact absurd hkind (numberAt_ne_mark _ m)
  rename_i hdigit
  split at hkind
  · exact absurd hkind (wordAt_ne_mark _ m)
  rename_i hname
  split at hkind
  · cases hkind
  rename_i hupper
  split at hkind
  · unfold stringAt at hkind
    split at hkind <;> cases hkind
  rename_i hquote
  split at hkind
  · rename_i found hfound
    cases hkind
    rw [if_neg hblank, if_neg hcomment, if_neg hdigit, if_neg hname, if_neg hupper, if_neg hquote, hfound,
      ← List.prefix_iff_eq_take.1 (Mark.prefix_of_ofChars? hfound)] at hraw
    refine ⟨hraw, ?_⟩
    rintro rfl hslash
    obtain ⟨tail, rfl⟩ := List.head?_eq_some_iff.1 hslash
    exact hcomment rfl
  · cases hkind

/-! ## Lexemes in a scan -/

/-- The modes of a scan after a lexeme in a fragment. -/
def modesAfter (braces : Nat) : LexemeKind → List QuoteMode
  | .mark .lBrace => [.code (braces + 1)]
  | .mark .rBrace =>
    match braces with
    | 0 => []
    | braces + 1 => [.code braces]
  | .comment => [.comment, .code braces]
  | _ => [.code braces]

/-- The scan passes a lexeme as a whole, if it does not end within a string. -/
theorem scan_lexeme {c : Char} {raw left : List Char} (hraw : (firstLexeme c (raw ++ left)).raw = c :: raw)
    (hclosed : (firstLexeme c (raw ++ left)).kind ≠ .string false) {more : List Char}
    (hslash : left.head? ≠ some '/' → more.head? ≠ some '/') (braces : Nat) :
    Scan [.code braces] (c :: (raw ++ more)) (modesAfter braces (firstLexeme c (raw ++ left)).kind) more := by
  cases hkind : (firstLexeme c (raw ++ left)).kind with
  | comment =>
    obtain ⟨body, hbody, hline⟩ := raw_of_comment hkind
    rw [hraw] at hbody
    obtain ⟨rfl, rfl⟩ := List.cons.inj hbody
    have hall : ∀ d ∈ body, d ≠ '\n' := by
      rw [← List.cons_append] at hline
      intro d hd
      have := (takeWhile_eq_iff.1 hline).1 d (List.mem_cons_of_mem _ (List.mem_cons_of_mem _ hd))
      simpa using this
    exact .step rfl (scan_comment [.code braces] hall more)
  | string closed =>
    obtain rfl := quote_of_string hkind
    cases closed with
    | false => exact absurd hkind hclosed
    | true =>
      obtain ⟨hwritten, hscan⟩ := raw_of_string hkind
      rw [hraw] at hwritten hscan
      generalize literalBody true ('"' :: raw) = body at hwritten hscan
      obtain ⟨-, rfl⟩ := List.cons.inj hwritten
      have hholds : QuoteMode.text.Holds body := hscan
      have hrest : Scan [.text, .code braces] (body ++ '"' :: more) [.code braces] more := hholds.scan _ _
      refine @Scan.step _ _ _ _ (body ++ '"' :: more) _ ?_ hrest
      simp [scanStep?]
  | mark m =>
    obtain ⟨hchars, hnext⟩ := raw_of_mark hkind
    rw [hraw] at hchars
    have hplain (h : (LexemeKind.mark m).isPlain = true) : Scan [.code braces] (c :: (raw ++ more)) [.code braces] more :=
      scan_inert (fun d hd => lexeme_inert (hkind ▸ h) d (hraw ▸ hd)) braces [] more
    cases m with
    | lBrace =>
      obtain ⟨rfl, rfl⟩ := List.cons.inj hchars
      exact .one rfl
    | rBrace =>
      obtain ⟨rfl, rfl⟩ := List.cons.inj hchars
      cases braces with
      | zero => exact .one rfl
      | succ braces => exact .one rfl
    | slash =>
      obtain ⟨rfl, rfl⟩ := List.cons.inj hchars
      exact .one (scanStep?_code braces [] (by decide) (by decide) (by decide) fun _ => hslash (hnext rfl))
    | _ => exact hplain rfl
  | _ =>
    have hplain : (firstLexeme c (raw ++ left)).kind.isPlain = true := by
      rw [hkind]
      rfl
    exact scan_inert (fun d hd => lexeme_inert hplain d (hraw ▸ hd)) braces [] more

/-! ## Braces -/

theorem closes_cons {depth : Nat} {token : Token} {rest : List Token} :
    Closes depth (token :: rest) ↔
      if token.kind.isMark .lBrace then Closes (depth + 1) rest
      else if token.kind.isMark .rBrace then ∃ below, depth = below + 1 ∧ Closes below rest
      else Closes depth rest := by
  split
  · rename_i left
    exact ⟨fun h => h.after_opening left, .opening left⟩
  rename_i left
  split
  · rename_i right
    refine ⟨fun h => h.after_closing right, ?_⟩
    rintro ⟨below, rfl, h⟩
    exact .closing right h
  · rename_i right
    rw [Bool.not_eq_true] at left right
    exact ⟨fun h => h.after_other left right, .other left right⟩

/-- What is closed by the token of a lexeme and what follows it. -/
theorem closes_readLexeme (fragment? : Option (Nat → List Char → Lexed)) (offset : Nat) (lexeme : Lexeme) (rest : List Token)
    (depth : Nat) : Closes depth ((readLexeme fragment? offset lexeme).tokens ++ rest) ↔
      match lexeme.kind with
      | .mark .lBrace => Closes (depth + 1) rest
      | .mark .rBrace => ∃ below, depth = below + 1 ∧ Closes below rest
      | _ => Closes depth rest := by
  unfold readLexeme
  cases lexeme.kind with
  | blank | comment | stray => exact Iff.rfl
  | mark m =>
    refine closes_cons.trans ?_
    cases m <;> exact Iff.rfl
  | _ => exact closes_cons

theorem Closes.count {depth : Nat} {tokens : List Token} (h : Closes depth tokens) :
    (∀ front, front <+: tokens → countMark .rBrace front ≤ countMark .lBrace front + depth) ∧
      countMark .rBrace tokens = countMark .lBrace tokens + depth := by
  have hcons {depth : Nat} {token : Token} {rest : List Token}
      (hnext : ∀ front, front <+: rest →
        countMark .rBrace (token :: front) ≤ countMark .lBrace (token :: front) + depth) :
      ∀ front, front <+: token :: rest → countMark .rBrace front ≤ countMark .lBrace front + depth := by
    intro front hfront
    cases front with
    | nil => exact Nat.zero_le _
    | cons first front =>
      obtain ⟨rfl, hrest⟩ := List.cons_prefix_cons.1 hfront
      exact hnext front hrest
  induction h with
  | nil => exact ⟨fun front hfront => by rw [List.prefix_nil.1 hfront]; exact Nat.le_refl _, rfl⟩
  | opening brace h ih =>
    refine ⟨hcons fun front hfront => ?_, ?_⟩
    · have := ih.1 front hfront
      simp only [countMark_cons, brace, isMark_of_ne brace .rBrace (by decide), if_true, Bool.false_eq_true, if_false]
      omega
    · have := ih.2
      simp only [countMark_cons, brace, isMark_of_ne brace .rBrace (by decide), if_true, Bool.false_eq_true, if_false]
      omega
  | closing brace h ih =>
    refine ⟨hcons fun front hfront => ?_, ?_⟩
    · have := ih.1 front hfront
      simp only [countMark_cons, brace, isMark_of_ne brace .lBrace (by decide), if_true, Bool.false_eq_true, if_false]
      omega
    · have := ih.2
      simp only [countMark_cons, brace, isMark_of_ne brace .lBrace (by decide), if_true, Bool.false_eq_true, if_false]
      omega
  | other left right h ih =>
    refine ⟨hcons fun front hfront => ?_, ?_⟩
    · simpa only [countMark_cons, left, right, Bool.false_eq_true, if_false, Nat.add_zero] using ih.1 front hfront
    · simpa only [countMark_cons, left, right, Bool.false_eq_true, if_false, Nat.add_zero] using ih.2

/-- Tokens that leave no brace open are balanced. -/
theorem Closes.balanced {tokens : List Token} (h : Closes 0 tokens) : Balanced tokens :=
  ⟨h.count.1, h.count.2⟩

/-- The end of the tokens is no brace. -/
theorem Balanced.of_done {tokens : List Token} {span : Span} (h : Balanced (tokens ++ [⟨.done, span⟩])) : Balanced tokens where
  prefixes front hfront := h.prefixes front (hfront.trans (List.prefix_append _ _))
  total := by
    have htotal := h.total
    simp only [countMark, List.countP_append] at htotal
    exact htotal

/-! ## Where a fragment ends -/

/-- A comment is followed by a line break or by nothing. -/
theorem head_of_comment {c : Char} {raw left : List Char} (hraw : (firstLexeme c (raw ++ left)).raw = c :: raw)
    (hkind : (firstLexeme c (raw ++ left)).kind = .comment) : ∀ d ∈ left.head?, d = '\n' := by
  obtain ⟨body, hbody, hline⟩ := raw_of_comment hkind
  rw [← hbody, hraw, ← List.cons_append] at hline
  intro d hd
  simpa using (takeWhile_eq_iff.1 hline).2 d hd

/-- What is left of a scan behind the first lexeme of a fragment. -/
theorem literalLength_lexeme {c : Char} {raw left : List Char} (hraw : (firstLexeme c (raw ++ left)).raw = c :: raw)
    (hclosed : (firstLexeme c (raw ++ left)).kind ≠ .string false) {tail : List Char}
    (hslash : tail.head? ≠ some '/') (depth n : Nat) :
    literalLength [.code depth] (c :: (raw ++ left) ++ tail) = some ((c :: (raw ++ left)).length + n) ↔
      literalLength (modesAfter depth (firstLexeme c (raw ++ left)).kind) (left ++ tail) = some (left.length + n) := by
  have hscan := @scan_lexeme c raw left hraw hclosed (left ++ tail) (fun hleft => by
    cases left with
    | nil => exact hslash
    | cons d left => exact hleft) depth
  have hlength := hscan.literalLength
  rw [List.cons_append, List.append_assoc, hlength]
  cases literalLength (modesAfter depth (firstLexeme c (raw ++ left)).kind) (left ++ tail) with
  | none => simp
  | some m =>
    simp only [Option.map_some, Option.some.injEq, List.length_cons, List.length_append]
    omega

section

variable {fragment? : Option (Nat → List Char → Lexed)} {offset depth : Nat} {text : List Char}

/-- In a fragment that the scan leaves at its end no string is open. -/
theorem closed_of_scan {c : Char} {raw left after : List Char} (hraw : (firstLexeme c (raw ++ left)).raw = c :: raw)
    (h : literalLength [.code depth] (c :: (raw ++ left) ++ '}' :: after) = some ((c :: (raw ++ left)).length + 1)) :
    (firstLexeme c (raw ++ left)).kind ≠ .string false := by
  intro hopen
  obtain rfl := quote_of_string hopen
  have hwhole := raw_firstLexeme_of_string hopen
  simp only [Bool.false_eq_true, if_false] at hwhole
  obtain ⟨-, hscan⟩ := raw_of_string hopen
  rw [hwhole] at hscan
  simp only [literalBody, Bool.false_eq_true, if_false, List.append_nil, List.drop_succ_cons, List.drop_zero] at hscan
  generalize raw ++ left = body at h hscan
  have hframe := literalLength_frame [.text] [.code depth] (body ++ '}' :: after)
  rw [List.cons_append, literalLength, ← List.singleton_append, hframe] at h
  obtain ⟨k, hk, hlength⟩ := Option.map_eq_some_iff.1 h
  obtain ⟨n, hn, hrest⟩ := Option.bind_eq_some_iff.1 hk
  obtain ⟨m, hm, rfl⟩ := Option.map_eq_some_iff.1 hrest
  have hpos := literalLength_pos hm
  rw [List.length_cons] at hlength
  rw [literalLength_left hn (by omega)] at hscan
  cases hscan

/-- At the end of a fragment the braces in it are closed and no string is open. -/
theorem closes_of_scan {after : List Char}
    (h : literalLength [.code depth] (text ++ '}' :: after) = some (text.length + 1)) :
    (∀ lexeme ∈ lexemes text, lexeme.kind ≠ .string false) ∧
      Closes depth (readLexemes fragment? offset (lexemes text)).tokens := by
  generalize hls : lexemes text = ls
  induction ls generalizing text depth offset with
  | nil =>
    have htext := flatMap_raw_lexemes text
    rw [hls] at htext
    subst htext
    refine ⟨fun _ hmem => absurd hmem List.not_mem_nil, ?_⟩
    cases depth with
    | zero => exact .singleton rfl rfl
    | succ depth =>
      obtain ⟨n, hn, hlength⟩ := Option.map_eq_some_iff.1 h
      have := literalLength_pos hn
      simp only [List.flatMap_nil, List.length_nil] at hlength
      omega
  | cons lexeme others ih =>
    obtain ⟨c, raw, left, hraw, rfl, hlexeme, hleft⟩ := exists_of_lexemes hls
    subst hlexeme
    have hclosed := closed_of_scan hraw h
    have hrest := (literalLength_lexeme hraw hclosed (by simp) depth 1).1 h
    have hothers {depth' offset' : Nat}
        (hrest : literalLength [.code depth'] (left ++ '}' :: after) = some (left.length + 1)) :=
      @ih offset' depth' left hrest hleft
    rw [List.forall_mem_cons, readLexemes, Lexed.tokens_append, closes_readLexeme]
    cases hkind : (firstLexeme c (raw ++ left)).kind with
    | comment =>
      rw [hkind] at hrest
      have hline : ∃ left', left = '\n' :: left' := by
        cases left with
        | cons d left => exact ⟨left, by rw [head_of_comment hraw hkind d rfl]⟩
        | nil =>
          obtain ⟨n, hn, hlength⟩ := Option.map_eq_some_iff.1 hrest
          have := literalLength_pos (by simpa using hn)
          rw [List.length_nil] at hlength
          omega
      obtain ⟨left', rfl⟩ := hline
      obtain ⟨hclosed', hcloses⟩ := hothers ((literalLength_newline depth [] _).symm.trans hrest)
      exact ⟨⟨by simp, hclosed'⟩, hcloses⟩
    | string closed =>
      rw [hkind] at hrest hclosed
      obtain ⟨hclosed', hcloses⟩ := hothers hrest
      exact ⟨⟨hclosed, hclosed'⟩, hcloses⟩
    | mark m =>
      rw [hkind] at hrest
      cases m with
      | rBrace =>
        cases depth with
        | zero => simp [modesAfter, literalLength] at hrest
        | succ depth =>
          obtain ⟨hclosed', hcloses⟩ := hothers hrest
          exact ⟨⟨by simp, hclosed'⟩, depth, rfl, hcloses⟩
      | _ =>
        obtain ⟨hclosed', hcloses⟩ := hothers hrest
        exact ⟨⟨by simp, hclosed'⟩, hcloses⟩
    | _ =>
      rw [hkind] at hrest
      obtain ⟨hclosed', hcloses⟩ := hothers hrest
      exact ⟨⟨by simp, hclosed'⟩, hcloses⟩

/-- The scan leaves a fragment at its end if the braces in it are closed, no string is open and a
line break ends the last comment. -/
theorem scan_of_closes (hclosed : ∀ lexeme ∈ lexemes text, lexeme.kind ≠ .string false)
    (hcloses : Closes depth (readLexemes fragment? offset (lexemes text)).tokens) (after : List Char) :
    literalLength [.code depth] (text ++ '\n' :: '}' :: after) = some (text.length + 2) := by
  generalize hls : lexemes text = ls at hclosed hcloses
  induction ls generalizing text depth offset with
  | nil =>
    have htext := flatMap_raw_lexemes text
    rw [hls] at htext
    subst htext
    obtain rfl : depth = 0 := by
      cases hcloses with
      | opening brace | closing brace => cases brace
      | other _ _ h => cases h; rfl
    simp [literalLength]
  | cons lexeme others ih =>
    obtain ⟨c, raw, left, hraw, rfl, hlexeme, hleft⟩ := exists_of_lexemes hls
    subst hlexeme
    obtain ⟨hfirst, hothers⟩ := List.forall_mem_cons.1 hclosed
    rw [readLexemes, Lexed.tokens_append, closes_readLexeme] at hcloses
    refine (literalLength_lexeme hraw hfirst (by simp) depth 2).2 ?_
    cases hkind : (firstLexeme c (raw ++ left)).kind with
    | comment =>
      rw [hkind] at hcloses
      have hrest := ih hleft hothers hcloses
      obtain ⟨tail, htail⟩ : ∃ tail, left ++ '\n' :: '}' :: after = '\n' :: tail := by
        cases left with
        | nil => exact ⟨_, rfl⟩
        | cons d left => exact ⟨_, by rw [head_of_comment hraw hkind d rfl]; rfl⟩
      rw [htail] at hrest ⊢
      exact (literalLength_newline depth [] tail).trans hrest
    | mark m =>
      rw [hkind] at hcloses
      cases m with
      | rBrace =>
        obtain ⟨below, rfl, hcloses⟩ := hcloses
        exact ih hleft hothers hcloses
      | _ => exact ih hleft hothers hcloses
    | _ =>
      rw [hkind] at hcloses
      exact ih hleft hothers hcloses

end

end JuiceSyntax
