/-
  Every character of a document is accounted for.

  `lex_tiling`: the `#!` line, the tokens and the comments that are in no string lie in the
  document one after another, and what they leave are blanks and stray characters, each of these
  with its one fault.
-/
import JuiceSyntax.Proofs.Token.Stretch
import Mathlib.Data.List.Pairwise

namespace JuiceSyntax

/-! ## Documents -/

theorem shebangLine_le (text : List Char) : shebangLine text <+: text := by
  unfold shebangLine
  split
  · exact List.takeWhile_prefix _
  · exact List.nil_prefix

/-- The stretches of a document, after its `#!` line. -/
def stretchesOf (source : String) : List Stretch :=
  stretches (byteWidth (shebangLine source.toList)) (lexemes (source.toList.drop (shebangLine source.toList).length))

section

variable (limit : Option Nat) (source : String)

theorem shebangLine_append_stretchesOf :
    shebangLine source.toList ++ (lexemes (source.toList.drop (shebangLine source.toList).length)).flatMap (·.raw) =
      source.toList := by
  rw [flatMap_raw_lexemes]
  exact (List.prefix_iff_eq_append.1 (shebangLine_le _))

theorem utf8ByteSize_eq_byteWidth : source.utf8ByteSize = byteWidth source.toList := by
  have hchars (cs : List Char) : (String.ofList cs).utf8ByteSize = byteWidth cs := by
    induction cs with
    | nil => rfl
    | cons c cs ih =>
      have hchar : (String.ofList [c]).utf8ByteSize = c.utf8Size := by
        rw [← String.size_toByteArray, String.toByteArray_ofList, List.utf8Encode_singleton, List.size_toByteArray,
          String.length_utf8EncodeChar]
      rw [← List.singleton_append, String.ofList_append, String.utf8ByteSize_append, ih, hchar]
      rfl
  rw [← hchars, String.ofList_toList]

/-- What is read from a document is what is read from its stretches. -/
theorem lexWithin_stretches :
    (lexWithin limit source).tokens =
        (stretchesOf source).flatMap (fun s => (s.lexed (fragmentsAt limit fragmentLimit)).tokens) ++
          [⟨.done, .point source.utf8ByteSize⟩] ∧
      (lexWithin limit source).comments =
        (stretchesOf source).flatMap (fun s => (s.lexed (fragmentsAt limit fragmentLimit)).comments) ∧
      (lexWithin limit source).faults =
        capFaults limit ((stretchesOf source).flatMap fun s => (s.lexed (fragmentsAt limit fragmentLimit)).faults) := by
  have hwidth : byteWidth (shebangLine source.toList) +
      byteWidth ((lexemes (source.toList.drop (shebangLine source.toList).length)).flatMap (·.raw)) =
        source.utf8ByteSize := by
    rw [← byteWidth_append, shebangLine_append_stretchesOf, utf8ByteSize_eq_byteWidth]
  unfold lexWithin
  dsimp only
  rw [lexAt_eq, readLexemes_stretches, hwidth]
  exact ⟨rfl, rfl, rfl⟩

theorem apt_stretchesOf {s : Stretch} (h : s ∈ stretchesOf source) : s.lexeme.Apt :=
  apt_lexemes _ _ (lexeme_mem_of_stretch h)

end

/-- One of two stretches ends before the other begins. -/
def Span.Apart (a b : Span) : Prop := a.stop ≤ b.start ∨ b.stop ≤ a.start

theorem Span.Apart.symm {a b : Span} (h : a.Apart b) : b.Apart a := Or.symm h

instance : Std.Symm fun s t : Stretch => s.span.Apart t.span := ⟨fun _ _ => .symm⟩

/-- Two stretches of a document are one, or apart. -/
theorem apart_stretchesOf {source : String} {s t : Stretch} (hs : s ∈ stretchesOf source) (ht : t ∈ stretchesOf source)
    (hne : s ≠ t) : s.span.Apart t.span := by
  have hpairwise : (stretchesOf source).Pairwise fun s t => s.span.Apart t.span :=
    (pairwise_stretches _ _).imp .inl
  exact hpairwise.forall hs ht hne

/-! ## What the spans leave -/

/-- The comments of a document that are in no string. -/
def LexedDocument.outerComments (doc : LexedDocument) : List Comment :=
  doc.comments.filter fun comment => !doc.tokens.any fun token => token.isString && token.span.holds comment.span

/-- Where the `#!` line, the tokens and the comments that are in no string stand, in order; the
end of the tokens does not count. -/
def LexedDocument.spans (doc : LexedDocument) : List Span :=
  (doc.shebang.toList ++ doc.tokens.dropLast.map (·.span) ++ doc.outerComments.map (·.span)).mergeSort
    fun a b => decide (a.start ≤ b.start)

/-- A stretch that is a token or a comment. -/
def Stretch.isSolid (s : Stretch) : Bool := s.lexeme.kind.addsToken || s.lexeme.kind == .comment

section

variable {source : String}

theorem between_stretch {s : Stretch} (h : s ∈ stretchesOf source) (limit : Option Nat) :
    AllBetween s.span.start s.span.stop (s.lexed (fragmentsAt limit fragmentLimit)).comments
      (s.lexed (fragmentsAt limit fragmentLimit)).faults :=
  readLexeme_between (fragmentsAt_between limit fragmentLimit) s.start (apt_stretchesOf source h).wide

theorem start_lt_stop_of_stretch {s : Stretch} (h : s ∈ stretchesOf source) : s.span.start < s.span.stop := by
  have hwidth := length_le_byteWidth s.lexeme.raw
  have hpos := List.length_pos_iff.2 (apt_stretchesOf source h).wide
  show s.start < s.start + byteWidth s.lexeme.raw
  omega

/-- A comment that is a stretch of its own is in no string. -/
theorem not_held_of_comment {s : Stretch} (hs : s ∈ stretchesOf source) (hkind : s.lexeme.kind = .comment) :
    (lex source).tokens.any (fun token => token.isString && token.span.holds s.span) = false := by
  have htokens : (lex source).tokens = _ := (lexWithin_stretches (some faultLimit) source).1
  rw [List.any_eq_false]
  intro token hmem hheld
  obtain ⟨hstring, hholds⟩ := Bool.and_eq_true_iff.1 hheld
  rw [htokens, List.mem_append, List.mem_flatMap, List.mem_singleton] at hmem
  obtain ⟨t, ht, htoken⟩ | rfl := hmem
  · cases hadds : t.lexeme.kind.addsToken with
    | false => exact absurd (tokens_of_not_addsToken _ hadds ▸ htoken) List.not_mem_nil
    | true =>
      obtain ⟨own, -, hspan, hown, -⟩ := tokens_of_addsToken (fragmentsAt (some faultLimit) fragmentLimit) hadds
      rw [hown, List.mem_singleton] at htoken
      have hne : t ≠ s := by
        rintro rfl
        rw [hkind] at hadds
        cases hadds
      rw [htoken, hspan, Span.holds_iff] at hholds
      have hwide := start_lt_stop_of_stretch hs
      obtain hapart | hapart := apart_stretchesOf ht hs hne
      · omega
      · omega
  · cases hstring

/-- A comment that a token adds is in a string. -/
theorem held_of_addsToken {s : Stretch} (hs : s ∈ stretchesOf source) (hadds : s.lexeme.kind.addsToken = true)
    {comment : Comment} (hmem : comment ∈ (s.lexed (fragmentsAt (some faultLimit) fragmentLimit)).comments) :
    (lex source).tokens.any (fun token => token.isString && token.span.holds comment.span) = true := by
  have htokens : (lex source).tokens = _ := (lexWithin_stretches (some faultLimit) source).1
  obtain ⟨own, -, hspan, hown, hstring⟩ := tokens_of_addsToken (fragmentsAt (some faultLimit) fragmentLimit) hadds
  have hstring := hstring.resolve_right fun hnil => absurd (hnil ▸ hmem) List.not_mem_nil
  obtain ⟨hstart, -, hstop⟩ := (between_stretch hs (some faultLimit)).comments comment hmem
  refine List.any_eq_true.2 ⟨own, ?_, ?_⟩
  · rw [htokens]
    refine List.mem_append_left _ (List.mem_flatMap.2 ⟨s, hs, ?_⟩)
    rw [hown]
    exact List.mem_singleton_self own
  · rw [hstring, hspan, Bool.true_and, Span.holds_iff]
    exact ⟨hstart, hstop⟩

end

/-- A list that takes one value from some members and none from the others. -/
theorem flatMap_eq_map_filter {α β : Type} {f : α → List β} {keep : α → Bool} {value : α → β} {l : List α}
    (h : ∀ a ∈ l, f a = if keep a then [value a] else []) : l.flatMap f = (l.filter keep).map value := by
  induction l with
  | nil => rfl
  | cons a l ih =>
    rw [List.flatMap_cons, h a List.mem_cons_self, ih fun b hb => h b (List.mem_cons_of_mem a hb), List.filter_cons]
    cases keep a <;> rfl

section

variable (source : String)

theorem map_span_tokens :
    (lex source).tokens.dropLast.map (·.span) =
      ((stretchesOf source).filter (·.lexeme.kind.addsToken)).map (·.span) := by
  have htokens : (lex source).tokens = _ := (lexWithin_stretches (some faultLimit) source).1
  rw [htokens, List.dropLast_concat, List.map_flatMap]
  refine flatMap_eq_map_filter fun s _ => ?_
  cases hadds : s.lexeme.kind.addsToken with
  | false =>
    rw [tokens_of_not_addsToken _ hadds]
    rfl
  | true =>
    obtain ⟨own, -, hspan, hown, -⟩ := tokens_of_addsToken (fragmentsAt (some faultLimit) fragmentLimit) hadds
    rw [hown, ← hspan]
    rfl

theorem map_span_outerComments :
    (lex source).outerComments.map (·.span) =
      ((stretchesOf source).filter (·.lexeme.kind == .comment)).map (·.span) := by
  have hcomments : (lex source).comments = _ := (lexWithin_stretches (some faultLimit) source).2.1
  rw [LexedDocument.outerComments, hcomments, List.filter_flatMap, List.map_flatMap]
  refine flatMap_eq_map_filter fun s hs => ?_
  cases hadds : s.lexeme.kind.addsToken with
  | true =>
    have hnone : (s.lexed (fragmentsAt (some faultLimit) fragmentLimit)).comments.filter (fun comment =>
        !(lex source).tokens.any fun token => token.isString && token.span.holds comment.span) = [] := by
      refine List.filter_eq_nil_iff.2 fun comment hmem => ?_
      rw [held_of_addsToken hs hadds hmem]
      decide
    have hkind : (s.lexeme.kind == .comment) = false := by
      cases hkind : s.lexeme.kind with
      | comment => rw [hkind] at hadds; cases hadds
      | _ => rfl
    rw [hnone, hkind]
    rfl
  | false =>
    cases hkind : s.lexeme.kind with
    | comment =>
      simp only [comments_of_comment _ hkind, List.filter_cons, not_held_of_comment hs hkind]
      rfl
    | blank =>
      rw [comments_of_blank _ hkind]
      rfl
    | stray =>
      rw [lexed_of_stray _ hkind]
      rfl
    | _ => rw [hkind] at hadds; cases hadds

end

section

variable {source : String}

theorem shebang_lex : (lex source).shebang =
    if (shebangLine source.toList).isEmpty then none else some ⟨0, byteWidth (shebangLine source.toList)⟩ := rfl

theorem mem_spans {span : Span} :
    span ∈ (lex source).spans ↔
      (lex source).shebang = some span ∨ ∃ s ∈ stretchesOf source, s.isSolid = true ∧ s.span = span := by
  rw [LexedDocument.spans, List.mem_mergeSort, map_span_tokens, map_span_outerComments]
  simp only [List.mem_append, Option.mem_toList, List.mem_map, List.mem_filter, Stretch.isSolid,
    Bool.or_eq_true, or_assoc]
  refine or_congr_right ⟨?_, ?_⟩
  · rintro (⟨s, ⟨hs, hadds⟩, hspan⟩ | ⟨s, ⟨hs, hcomment⟩, hspan⟩)
    · exact ⟨s, hs, .inl hadds, hspan⟩
    · exact ⟨s, hs, .inr hcomment, hspan⟩
  · rintro ⟨s, hs, hadds | hcomment, hspan⟩
    · exact .inl ⟨s, ⟨hs, hadds⟩, hspan⟩
    · exact .inr ⟨s, ⟨hs, hcomment⟩, hspan⟩

/-- The `#!` line ends before the first stretch begins. -/
theorem shebang_apart {span : Span} (h : (lex source).shebang = some span) {s : Stretch} (hs : s ∈ stretchesOf source) :
    span.stop ≤ s.span.start := by
  rw [shebang_lex] at h
  split at h
  · cases h
  · obtain rfl := Option.some.inj h
    exact start_le_of_stretch hs

/-- In the text, a span reads as something. -/
theorem slice?_of_mem_spans {span : Span} (h : span ∈ (lex source).spans) :
    ∃ raw, raw ≠ [] ∧ slice? source.toList span = some raw := by
  have htext := shebangLine_append_stretchesOf source
  obtain hshebang | ⟨s, hs, -, rfl⟩ := mem_spans.1 h
  · rw [shebang_lex] at hshebang
    split at hshebang
    · cases hshebang
    · rename_i hline
      obtain rfl := Option.some.inj hshebang
      refine ⟨shebangLine source.toList, fun hnil => hline (by rw [hnil]; rfl), ?_⟩
      have hslice := slice?_middle [] (shebangLine source.toList)
        ((lexemes (source.toList.drop (shebangLine source.toList).length)).flatMap (·.raw))
      rw [List.nil_append, htext, byteWidth_nil, Nat.zero_add] at hslice
      exact hslice
  · have hslice := slice?_stretch (shebangLine source.toList) hs
    rw [htext] at hslice
    exact ⟨s.lexeme.raw, (apt_stretchesOf source hs).wide, hslice⟩

theorem start_lt_stop_of_mem_spans {span : Span} (h : span ∈ (lex source).spans) : span.start < span.stop := by
  obtain hshebang | ⟨s, hs, -, rfl⟩ := mem_spans.1 h
  · rw [shebang_lex] at hshebang
    split at hshebang
    · cases hshebang
    · rename_i hline
      obtain rfl := Option.some.inj hshebang
      have hwidth := length_le_byteWidth (shebangLine source.toList)
      have hpos : 0 < (shebangLine source.toList).length :=
        List.length_pos_iff.2 fun hnil => hline (by rw [hnil]; rfl)
      show 0 < byteWidth (shebangLine source.toList)
      omega
  · exact start_lt_stop_of_stretch hs

/-- Before they are sorted, any two of the spans are apart. -/
theorem pairwise_apart : ((lex source).shebang.toList ++ (lex source).tokens.dropLast.map (·.span) ++
    (lex source).outerComments.map (·.span)).Pairwise Span.Apart := by
  have hpairwise : (stretchesOf source).Pairwise fun s t => s.span.Apart t.span :=
    (pairwise_stretches _ _).imp .inl
  have hmap (keep : Stretch → Bool) : (((stretchesOf source).filter keep).map (·.span)).Pairwise Span.Apart :=
    List.pairwise_map.2 (hpairwise.filter keep)
  have hline {span : Span} (hspan : span ∈ (lex source).shebang.toList) (keep : Stretch → Bool) :
      ∀ other ∈ ((stretchesOf source).filter keep).map (·.span), span.Apart other := by
    intro other hother
    obtain ⟨s, hs, rfl⟩ := List.mem_map.1 hother
    exact .inl (shebang_apart (Option.mem_toList.1 hspan) (List.mem_filter.1 hs).1)
  rw [map_span_tokens, map_span_outerComments, List.pairwise_append, List.pairwise_append]
  refine ⟨⟨?_, hmap _, fun span hspan => hline hspan _⟩, hmap _, fun span hspan other hother => ?_⟩
  · cases (lex source).shebang with
    | none => exact .nil
    | some span => exact List.pairwise_singleton _ _
  · obtain hspan | hspan := List.mem_append.1 hspan
    · exact hline hspan _ other hother
    · obtain ⟨s, hs, rfl⟩ := List.mem_map.1 hspan
      obtain ⟨t, ht, rfl⟩ := List.mem_map.1 hother
      obtain ⟨hs, hadds⟩ := List.mem_filter.1 hs
      obtain ⟨ht, hcomment⟩ := List.mem_filter.1 ht
      refine apart_stretchesOf hs ht ?_
      rintro rfl
      rw [LawfulBEq.eq_of_beq hcomment] at hadds
      cases hadds

/-- Each of the spans ends before the next one begins. -/
theorem pairwise_spans : (lex source).spans.Pairwise fun a b => a.stop ≤ b.start := by
  have hsorted : (lex source).spans.Pairwise fun a b => decide (a.start ≤ b.start) = true := by
    refine List.pairwise_mergeSort (fun a b c hab hbc => ?_) (fun a b => ?_) _
    · simp only [decide_eq_true_eq] at hab hbc ⊢
      exact Nat.le_trans hab hbc
    · simp only [Bool.or_eq_true, decide_eq_true_eq]
      exact Nat.le_total _ _
  have hapart : (lex source).spans.Pairwise Span.Apart :=
    ((List.mergeSort_perm _ _).pairwise_iff .symm).2 pairwise_apart
  refine (hsorted.and hapart).imp_of_mem fun {a b} _ hb h => ?_
  have hwide := start_lt_stop_of_mem_spans hb
  have hle := of_decide_eq_true h.1
  obtain hapart | hapart := h.2
  · exact hapart
  · omega

theorem kind_of_not_isSolid {s : Stretch} (h : s.isSolid = false) :
    s.lexeme.kind = .blank ∨ s.lexeme.kind = .stray := by
  unfold Stretch.isSolid at h
  cases hkind : s.lexeme.kind with
  | blank => exact .inl rfl
  | stray => exact .inr rfl
  | _ => rw [hkind] at h; cases h

theorem eq_of_singleton_eq_append {c d : Char} {front back : List Char} (h : [d] = front ++ c :: back) :
    front = [] ∧ c = d := by
  cases front with
  | nil => exact ⟨rfl, (List.cons.inj h).1.symm⟩
  | cons e front => simp at h

theorem isDone_of_mem_dropLast {token : Token} (h : token ∈ (lex source).tokens.dropLast) :
    token.kind.isDone = false := by
  have htokens : (lex source).tokens = _ := (lexWithin_stretches (some faultLimit) source).1
  rw [htokens, List.dropLast_concat] at h
  obtain ⟨s, hs, htoken⟩ := List.mem_flatMap.1 h
  cases hadds : s.lexeme.kind.addsToken with
  | false => exact absurd (tokens_of_not_addsToken _ hadds ▸ htoken) List.not_mem_nil
  | true =>
    obtain ⟨own, hdone, -, hown, -⟩ := tokens_of_addsToken (fragmentsAt (some faultLimit) fragmentLimit) hadds
    rw [hown, List.mem_singleton] at htoken
    rwa [htoken]

/-- A character that the spans leave is in a stretch that is no token and no comment. -/
theorem exists_stretch_of_left {before after : List Char} {c : Char} (h : source.toList = before ++ c :: after)
    (hleft : ∀ span ∈ (lex source).spans, ¬(span.start ≤ byteWidth before ∧ byteWidth before < span.stop)) :
    ∃ s ∈ stretchesOf source, s.isSolid = false ∧ ∃ front back, s.lexeme.raw = front ++ c :: back ∧
      s.start + byteWidth front = byteWidth before := by
  have htext := (shebangLine_append_stretchesOf source).trans h
  have hstretch {middle : List Char} (hbefore : before = shebangLine source.toList ++ middle)
      (hmiddle : (lexemes (source.toList.drop (shebangLine source.toList).length)).flatMap (·.raw) =
        middle ++ c :: after) :
      ∃ s ∈ stretchesOf source, s.isSolid = false ∧ ∃ front back, s.lexeme.raw = front ++ c :: back ∧
        s.start + byteWidth front = byteWidth before := by
    obtain ⟨s, hs, front, back, hraw, hstart⟩ := exists_stretch (byteWidth (shebangLine source.toList)) hmiddle
    rw [← byteWidth_append, ← hbefore] at hstart
    refine ⟨s, hs, ?_, front, back, hraw, hstart⟩
    by_contra hsolid
    refine hleft s.span (mem_spans.2 (.inr ⟨s, hs, by simpa using hsolid, rfl⟩)) ⟨?_, ?_⟩
    · show s.start ≤ byteWidth before
      omega
    · show byteWidth before < s.start + byteWidth s.lexeme.raw
      have hpos := Char.utf8Size_pos c
      rw [hraw, byteWidth_append, byteWidth_cons]
      omega
  rw [List.append_eq_append_iff] at htext
  obtain ⟨middle, hbefore, hmiddle⟩ | ⟨tail, hline, htail⟩ := htext
  · exact hstretch hbefore hmiddle
  · cases tail with
    | nil =>
      rw [List.append_nil] at hline
      exact hstretch (by rw [hline, List.append_nil]) (htail.symm.trans (List.nil_append _).symm)
    | cons d tail =>
      -- A character of the `#!` line is in its span.
      have hpos := Char.utf8Size_pos d
      have hwidth : byteWidth before < byteWidth (shebangLine source.toList) := by
        rw [hline, byteWidth_append, byteWidth_cons]
        omega
      have hshebang : (lex source).shebang = some ⟨0, byteWidth (shebangLine source.toList)⟩ := by
        rw [shebang_lex, hline]
        cases before <;> rfl
      exact absurd ⟨Nat.zero_le _, hwidth⟩ (hleft _ (mem_spans.2 (.inl hshebang)))

/-- A stray character has its one fault, and no other fault begins there. -/
theorem faults_of_stray {s : Stretch} (hs : s ∈ stretchesOf source) (hkind : s.lexeme.kind = .stray) {c : Char}
    (hraw : s.lexeme.raw = [c]) :
    (lexWithin none source).faults.filter (fun fault => fault.span.start == s.start) = [⟨.unexpectedChar c, s.span⟩] := by
  have hfaults : (lexWithin none source).faults = _ := (lexWithin_stretches none source).2.2
  obtain ⟨front, back, hsplit⟩ := List.append_of_mem hs
  have hnone {others : List Stretch} (h : ∀ t ∈ others, t ∈ stretchesOf source ∧ t.span.Apart s.span) :
      (others.flatMap fun t => (t.lexed (fragmentsAt none fragmentLimit)).faults).filter
        (fun fault => fault.span.start == s.start) = [] := by
    refine List.filter_eq_nil_iff.2 fun fault hmem hstart => ?_
    obtain ⟨t, ht, hfault⟩ := List.mem_flatMap.1 hmem
    obtain ⟨hmem, hapart⟩ := h t ht
    obtain ⟨hlo, hwide, hhi⟩ := (between_stretch hmem none).faults fault hfault
    have hpos := start_lt_stop_of_stretch hs
    have hstart : fault.span.start = s.span.start := LawfulBEq.eq_of_beq hstart
    obtain hapart | hapart := hapart
    · omega
    · omega
  have hpairwise : (stretchesOf source).Pairwise fun s t => s.span.stop ≤ t.span.start := pairwise_stretches _ _
  rw [hsplit, List.pairwise_append] at hpairwise
  obtain ⟨-, hback, hfront⟩ := hpairwise
  rw [hfaults, capFaults, hsplit, List.flatMap_append, List.flatMap_cons, List.filter_append, List.filter_append,
    hnone fun t ht => ⟨hsplit ▸ List.mem_append_left _ ht, .inl (hfront t ht s List.mem_cons_self)⟩,
    hnone fun t ht => ⟨hsplit ▸ List.mem_append_right _ (List.mem_cons_of_mem _ ht),
      .inr ((List.pairwise_cons.1 hback).1 t ht)⟩,
    lexed_of_stray _ hkind, hraw]
  simp [Stretch.span]

end

/-- The `#!` line, the tokens and the comments that are in no string lie in a document one after
another, each with some text of its own, and the end of the tokens is the end of the document.
A character that they leave is a blank, or a stray one with its one fault. -/
theorem lex_tiling (source : String) :
    (∃ tokens, (lex source).tokens = tokens ++ [⟨.done, .point source.utf8ByteSize⟩] ∧
        (∀ token ∈ tokens, token.kind.isDone = false) ∧
        (tokens.map (·.span)).Pairwise fun a b => a.stop ≤ b.start) ∧
      ((lex source).outerComments.map (·.span)).Pairwise (fun a b => a.stop ≤ b.start) ∧
      (lex source).spans.Pairwise (fun a b => a.stop ≤ b.start) ∧
      (∀ span ∈ (lex source).spans, ∃ raw, raw ≠ [] ∧ slice? source.toList span = some raw) ∧
      ∀ before c after, source.toList = before ++ c :: after →
        (∀ span ∈ (lex source).spans, ¬(span.start ≤ byteWidth before ∧ byteWidth before < span.stop)) →
        isBlank c = true ∨
          (∀ rest, (firstLexeme c rest).kind = .stray) ∧
            (lexWithin none source).faults.filter (fun fault => fault.span.start == byteWidth before) =
              [⟨.unexpectedChar c, ⟨byteWidth before, byteWidth before + c.utf8Size⟩⟩] := by
  have hfilter (keep : Stretch → Bool) :
      (((stretchesOf source).filter keep).map (·.span)).Pairwise fun a b => a.stop ≤ b.start :=
    List.pairwise_map.2 ((pairwise_stretches _ _).filter keep)
  refine ⟨⟨(lex source).tokens.dropLast, ?_, fun token hmem => ?_, ?_⟩, ?_, pairwise_spans,
    fun span hmem => slice?_of_mem_spans hmem, fun before c after htext hleft => ?_⟩
  · have htokens : (lex source).tokens = _ := (lexWithin_stretches (some faultLimit) source).1
    rw [htokens, List.dropLast_concat]
  · exact isDone_of_mem_dropLast hmem
  · rw [map_span_tokens]
    exact hfilter _
  · rw [map_span_outerComments]
    exact hfilter _
  · obtain ⟨s, hs, hsolid, front, back, hraw, hstart⟩ := exists_stretch_of_left htext hleft
    have hapt := apt_stretchesOf source hs
    obtain hkind | hkind := kind_of_not_isSolid hsolid
    · obtain ⟨d, hd, hblank⟩ := hapt.blank hkind
      obtain ⟨-, rfl⟩ := eq_of_singleton_eq_append (hd.symm.trans hraw)
      exact .inl hblank
    · obtain ⟨d, hd, hstray⟩ := hapt.stray hkind
      obtain ⟨rfl, rfl⟩ := eq_of_singleton_eq_append (hd.symm.trans hraw)
      have hfaults := faults_of_stray hs hkind hd
      rw [byteWidth_nil, Nat.add_zero] at hstart
      rw [Stretch.span, hd, byteWidth_cons, byteWidth_nil, Nat.add_zero, hstart] at hfaults
      exact .inr ⟨hstray, hfaults⟩

/-- The `#` begins no token after the first line; the comment in the string is not one of the
spans. -/
theorem lex_tiling_stray :
    "#!x\n\"$\x7b1 // a\n\x7d\" # é".toList = "#!x\n\"$\x7b1 // a\n\x7d\" ".toList ++ '#' :: " é".toList ∧
      (∀ span ∈ (lex "#!x\n\"$\x7b1 // a\n\x7d\" # é").spans,
        ¬(span.start ≤ byteWidth "#!x\n\"$\x7b1 // a\n\x7d\" ".toList ∧
          byteWidth "#!x\n\"$\x7b1 // a\n\x7d\" ".toList < span.stop)) ∧
      (isBlank '#' = true ∨
        (∀ rest, (firstLexeme '#' rest).kind = .stray) ∧
          (lexWithin none "#!x\n\"$\x7b1 // a\n\x7d\" # é").faults.filter
              (fun fault => fault.span.start == byteWidth "#!x\n\"$\x7b1 // a\n\x7d\" ".toList) =
            [⟨.unexpectedChar '#', ⟨byteWidth "#!x\n\"$\x7b1 // a\n\x7d\" ".toList,
              byteWidth "#!x\n\"$\x7b1 // a\n\x7d\" ".toList + '#'.utf8Size⟩⟩]) := by
  have htext : "#!x\n\"$\x7b1 // a\n\x7d\" # é".toList =
      "#!x\n\"$\x7b1 // a\n\x7d\" ".toList ++ '#' :: " é".toList := by decide +kernel
  have hleft : ∀ span ∈ (lex "#!x\n\"$\x7b1 // a\n\x7d\" # é").spans,
      ¬(span.start ≤ byteWidth "#!x\n\"$\x7b1 // a\n\x7d\" ".toList ∧
        byteWidth "#!x\n\"$\x7b1 // a\n\x7d\" ".toList < span.stop) := by
    intro span hmem
    rw [LexedDocument.spans, List.mem_mergeSort] at hmem
    revert span
    decide +kernel
  exact ⟨htext, hleft, (lex_tiling _).2.2.2.2 _ _ _ htext hleft⟩

end JuiceSyntax
