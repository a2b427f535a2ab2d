/-
  The pieces of a string tile its content: they follow one another from the start of the content to its
  end, but for the fragments that are too deep to be lexed, and each of those is reported.

  `Follows`: what a part of a content tells of the next one. `pieces_tile`: the pieces of every string of a
  document, closed or not, in whatever fragment it stands.
-/
import Mathlib.Data.List.Chain
import JuiceSyntax.Proofs.Source.Offsets
import JuiceSyntax.Proofs.Token.ClosedStrings
import JuiceSyntax.Proofs.Token.FaultOrder

namespace JuiceSyntax

/-! ## Parts -/

/-- What a part of a content tells of the one that follows it. -/
structure Part.Follows (part next : Part) : Prop where
  text : part.kind = .text → next.kind ≠ .text
  indent : next.kind = .indent → ∃ line, part.raw = line ++ ['\n']

theorem indentLength?_eq_none {c : Char} (h : c = '\\' ∨ c = '$') (rest : List Char) : indentLength? (c :: rest) = none := by
  obtain rfl | rfl := h <;> rfl

/-- A text ends before a backslash, a fragment or a marked line, or where the content ends. -/
theorem textLength_stops (multiline : Bool) (content : List Char) :
    (∃ rest, content.drop (textLength multiline content) = '\\' :: rest) ∨
      (∃ rest, content.drop (textLength multiline content) = '$' :: '{' :: rest) ∨
      (multiline = true ∧ (∃ line, content.take (textLength multiline content) = line ++ ['\n']) ∧
        (indentLength? (content.drop (textLength multiline content))).isSome = true) ∨
      content.drop (textLength multiline content) = [] := by
  fun_induction textLength multiline content with
  | case1 => exact .inr (.inr (.inr rfl))
  | case2 rest => exact .inl ⟨rest, rfl⟩
  | case3 rest => exact .inr (.inl ⟨rest, rfl⟩)
  | case4 c cs hescape hfragment hmarked =>
    simp only [Bool.and_eq_true, beq_iff_eq] at hmarked
    obtain ⟨⟨rfl, hmultiline⟩, hindent⟩ := hmarked
    exact .inr (.inr (.inl ⟨hmultiline, ⟨[], rfl⟩, hindent⟩))
  | case5 c cs hescape hfragment hmarked ih =>
    obtain hstop | hstop | ⟨hmultiline, ⟨line, hline⟩, hindent⟩ | hstop := ih
    · exact .inl hstop
    · exact .inr (.inl hstop)
    · exact .inr (.inr (.inl ⟨hmultiline, ⟨c :: line, by rw [List.take_succ_cons, hline]; rfl⟩, hindent⟩))
    · exact .inr (.inr (.inr hstop))

/-- There is neither a backslash nor a fragment in a text. -/
theorem plain_of_textLength (multiline : Bool) (content : List Char) :
    '\\' ∉ content.take (textLength multiline content) ∧ ¬['$', '{'] <:+: content.take (textLength multiline content) := by
  fun_induction textLength multiline content with
  | case1 => exact ⟨List.not_mem_nil, by simp⟩
  | case2 => exact ⟨List.not_mem_nil, by simp⟩
  | case3 => exact ⟨List.not_mem_nil, by simp⟩
  | case4 c cs hescape hfragment hmarked =>
    simp only [Bool.and_eq_true, beq_iff_eq] at hmarked
    obtain ⟨⟨rfl, -⟩, -⟩ := hmarked
    refine ⟨by simp, fun hinfix => ?_⟩
    have hlength := hinfix.length_le
    simp at hlength
  | case5 c cs hescape hfragment hmarked ih =>
    obtain ⟨hnone, hinfix⟩ := ih
    rw [List.take_succ_cons]
    constructor
    · rintro (_ | ⟨_, hmem⟩)
      · exact hescape rfl
      · exact hnone hmem
    · intro hwithin
      obtain hstarts | hwithin := List.infix_cons_iff.1 hwithin
      · obtain ⟨rfl, hbrace⟩ := List.cons_prefix_cons.1 hstarts
        obtain ⟨rest, hrest⟩ := hbrace.trans (List.take_prefix _ cs)
        exact hfragment rest rfl hrest.symm
      · exact hinfix hwithin

section

variable {multiline atLineStart : Bool} {content : List Char}

theorem firstPart_of_text (h : (firstPart multiline atLineStart content).kind = .text) :
    (atLineStart = true → indentLength? content = none) ∧ (∀ rest, content ≠ '\\' :: rest) ∧
      (∀ rest, content ≠ '$' :: '{' :: rest) ∧
      firstPart multiline atLineStart content = ⟨.text, content.take (textLength multiline content)⟩ := by
  unfold firstPart at h ⊢
  split at h
  · cases h
  rename_i hnone
  split at h
  · split at h
    all_goals cases h
  · split at h
    all_goals cases h
  rename_i hescape hfragment
  refine ⟨fun hstart => ?_, hescape, hfragment, ?_⟩
  · rwa [if_pos hstart] at hnone
  · rfl

theorem firstPart_of_indent (h : (firstPart multiline atLineStart content).kind = .indent) :
    atLineStart = true ∧ (indentLength? content).isSome = true := by
  unfold firstPart at h
  split at h
  · rename_i n hsome
    split at hsome
    · rename_i hstart
      exact ⟨hstart, Option.isSome_iff_exists.2 ⟨n, hsome⟩⟩
    · cases hsome
  split at h
  · split at h
    all_goals cases h
  · split at h
    all_goals cases h
  · cases h

/-- What a text is followed by. -/
theorem follows_firstPart {part : Part} (hpart : part = firstPart multiline atLineStart content) {rest : List Char}
    (hrest : rest = content.drop part.raw.length) (hne : rest ≠ []) :
    part.Follows (firstPart multiline (multiline && part.kind == .text) rest) := by
  have hstops (hkind : part.kind = .text) : part.raw = content.take (textLength multiline content) ∧
      rest = content.drop (textLength multiline content) := by
    rw [hpart] at hkind
    obtain ⟨-, -, -, heq⟩ := firstPart_of_text hkind
    rw [← hpart] at heq
    have hraw : part.raw = content.take (textLength multiline content) := by rw [heq]
    refine ⟨hraw, ?_⟩
    rw [hrest, hraw, List.length_take, List.drop_eq_drop_iff]
    omega
  constructor
  · intro hkind hnext
    obtain ⟨-, hdrop⟩ := hstops hkind
    obtain ⟨hindent, hescape, hfragment, -⟩ := firstPart_of_text hnext
    rw [hdrop] at hindent hescape hfragment hne
    obtain ⟨_, hstop⟩ | ⟨_, hstop⟩ | ⟨hmultiline, -, hmarked⟩ | hstop := textLength_stops multiline content
    · exact hescape _ hstop
    · exact hfragment _ hstop
    · have hstart : (multiline && part.kind == .text) = true := by rw [hmultiline, hkind]; rfl
      rw [hindent hstart] at hmarked
      cases hmarked
    · exact hne hstop
  · intro hnext
    obtain ⟨hstart, hmarked⟩ := firstPart_of_indent hnext
    rw [Bool.and_eq_true, beq_iff_eq] at hstart
    obtain ⟨hraw, hdrop⟩ := hstops hstart.2
    rw [hdrop] at hmarked hne
    rw [hraw]
    obtain ⟨_, hstop⟩ | ⟨_, hstop⟩ | ⟨-, hline, -⟩ | hstop := textLength_stops multiline content
    · rw [hstop, indentLength?_eq_none (.inl rfl)] at hmarked
      cases hmarked
    · rw [hstop, indentLength?_eq_none (.inr rfl)] at hmarked
      cases hmarked
    · exact hline
    · exact absurd hstop hne

end

theorem chain_cutParts (multiline : Bool) (fuel : Nat) (atLineStart : Bool) (content : List Char) :
    (cutParts multiline fuel atLineStart content).IsChain Part.Follows := by
  induction fuel generalizing atLineStart content with
  | zero => exact .nil
  | succ fuel ih =>
    cases content with
    | nil => exact .nil
    | cons c cs =>
      have hrest := ih (multiline && (firstPart multiline atLineStart (c :: cs)).kind == .text)
        ((c :: cs).drop (firstPart multiline atLineStart (c :: cs)).raw.length)
      simp only [cutParts]
      generalize hpart : firstPart multiline atLineStart (c :: cs) = part at hrest
      generalize hbehind : (c :: cs).drop part.raw.length = rest at hrest
      cases fuel with
      | zero => exact .singleton _
      | succ fuel =>
        cases rest with
        | nil => exact .singleton _
        | cons d ds =>
          simp only [cutParts] at hrest ⊢
          exact .cons_cons (follows_firstPart hpart.symm hbehind.symm (List.cons_ne_nil _ _)) hrest

/-- Every part is the first one of what is left of the content where it stands. -/
theorem exists_firstPart {multiline : Bool} {fuel : Nat} {atLineStart : Bool} {content : List Char} (hfuel : content.length ≤ fuel)
    (hlines : atLineStart = true → multiline = true) {front back : List Part} {part : Part}
    (h : cutParts multiline fuel atLineStart content = front ++ part :: back) :
    ∃ atLineStart, (atLineStart = true → multiline = true) ∧
      part = firstPart multiline atLineStart (part.raw ++ back.flatMap (·.raw)) := by
  have hwhole := flatMap_raw_cutParts multiline fuel atLineStart content hfuel
  induction front generalizing fuel atLineStart content with
  | nil =>
    rw [h, List.nil_append, List.flatMap_cons] at hwhole
    rw [hwhole]
    cases fuel with
    | zero => cases h
    | succ fuel =>
      cases content with
      | nil => cases h
      | cons c cs => exact ⟨atLineStart, hlines, (List.cons.inj h).1.symm⟩
  | cons first front ih =>
    cases fuel with
    | zero => cases h
    | succ fuel =>
      cases content with
      | nil => cases h
      | cons c cs =>
        obtain ⟨-, hrest⟩ := List.cons.inj h
        have hpos := (raw_firstPart multiline atLineStart c cs).2
        have hfewer : ((c :: cs).drop (firstPart multiline atLineStart (c :: cs)).raw.length).length ≤ fuel := by
          simp only [List.length_drop, List.length_cons] at hfuel ⊢
          omega
        refine ih hfewer ?_ hrest (flatMap_raw_cutParts _ _ _ _ hfewer)
        intro hboth
        rw [Bool.and_eq_true] at hboth
        exact hboth.1

/-- A fragment ends at the brace that closes it, or takes all that is left. -/
theorem firstPart_of_fragment {multiline atLineStart closed : Bool} {content : List Char}
    (h : (firstPart multiline atLineStart content).kind = .fragment closed) :
    ∃ inner more, content = '$' :: '{' :: (inner ++ more) ∧
      (firstPart multiline atLineStart content).raw = '$' :: '{' :: inner ∧
      (literalLength [.code 0] (inner ++ more) = some inner.length ∨ literalLength [.code 0] inner = none ∧ more = []) := by
  obtain ⟨rest, rfl, ⟨n, hlength, heq⟩ | ⟨hlength, heq⟩⟩ := firstPart_fragment_cases h
  · have htake : (rest.take n).length = n := by
      rw [List.length_take]
      exact Nat.min_eq_left (literalLength_eq_some_iff.1 hlength).1
    refine ⟨rest.take n, rest.drop n, by rw [List.take_append_drop], by rw [heq], .inl ?_⟩
    rw [List.take_append_drop, htake]
    exact hlength
  · exact ⟨rest, [], by rw [List.append_nil], by rw [heq], .inr ⟨hlength, rfl⟩⟩

/-! ## Pieces -/

/-- Pieces one after another, with gaps between them, from one offset to another. -/
inductive Tiled : Nat → List Piece → List Span → Nat → Prop
  | nil (n : Nat) : Tiled n [] [] n
  | piece {lo hi : Nat} {piece : Piece} {pieces : List Piece} {gaps : List Span} (start : piece.span.start = lo)
    (wide : lo < piece.span.stop) (more : Tiled piece.span.stop pieces gaps hi) : Tiled lo (piece :: pieces) gaps hi
  | gap {lo hi : Nat} {span : Span} {pieces : List Piece} {gaps : List Span} (start : span.start = lo)
    (wide : lo < span.stop) (more : Tiled span.stop pieces gaps hi) : Tiled lo pieces (span :: gaps) hi

/-- Where fragments are reported as too deep. -/
def deepSpans (faults : List LexFault) : List Span :=
  (faults.filter fun fault => fault.cause == .fragmentTooDeep).map (·.span)

/-- Where a part stands among parts, of which the first is at an offset. -/
def Part.Stands (part : Part) (offset : Nat) (ps : List Part) (span : Span) : Prop :=
  ∃ front back, ps = front ++ part :: back ∧
    span = ⟨offset + byteWidth (front.flatMap (·.raw)), offset + byteWidth (front.flatMap (·.raw)) + byteWidth part.raw⟩

/-- The piece that is read from a part. -/
inductive Part.Gives (fragment? : Option (Nat → List Char → Lexed)) (part : Part) (span : Span) : Piece → Prop
  | text (kind : part.kind = .text) : Gives fragment? part span (.text (String.ofList part.raw) span)
  | indent (kind : part.kind = .indent) : Gives fragment? part span (.indent span)
  | escape {value : Char} (kind : part.kind = .escape value ∨ part.kind = .badEscape value) :
    Gives fragment? part span (.escape value (String.ofList part.raw) span)
  | fragment {lex : Nat → List Char → Lexed} {closed : Bool} (kind : part.kind = .fragment closed) (some : fragment? = some lex) :
    Gives fragment? part span (.fragment (lex (span.start + 2) part.inner).tokens span)

section

variable {fragment? : Option (Nat → List Char → Lexed)} {offset : Nat} {part : Part} {ps : List Part}

theorem Part.Gives.span_eq {span : Span} {piece : Piece} (h : part.Gives fragment? span piece) : piece.span = span := by
  cases h <;> rfl

/-- A part gives a piece, or is a fragment that is too deep. -/
theorem readParts_cases (fragment? : Option (Nat → List Char → Lexed)) (offset : Nat) (part : Part) (ps : List Part) :
    (∃ piece, part.Gives fragment? ⟨offset, offset + byteWidth part.raw⟩ piece ∧
        (readParts fragment? offset (part :: ps)).pieces =
          piece :: (readParts fragment? (offset + byteWidth part.raw) ps).pieces ∧
        (fragment? = none → deepSpans (readParts fragment? offset (part :: ps)).faults =
          deepSpans (readParts fragment? (offset + byteWidth part.raw) ps).faults)) ∨
      ((∃ closed, part.kind = .fragment closed) ∧ fragment? = none ∧
        (readParts fragment? offset (part :: ps)).pieces = (readParts fragment? (offset + byteWidth part.raw) ps).pieces ∧
        deepSpans (readParts fragment? offset (part :: ps)).faults = ⟨offset, offset + byteWidth part.raw⟩ ::
          deepSpans (readParts fragment? (offset + byteWidth part.raw) ps).faults) := by
  obtain ⟨kind, raw⟩ := part
  cases kind with
  | text => exact .inl ⟨_, .text rfl, rfl, fun _ => rfl⟩
  | indent => exact .inl ⟨_, .indent rfl, rfl, fun _ => rfl⟩
  | escape value => exact .inl ⟨_, .escape (.inl rfl), rfl, fun _ => rfl⟩
  | badEscape value => exact .inl ⟨_, .escape (.inr rfl), rfl, fun _ => rfl⟩
  | fragment closed =>
    cases fragment? with
    | none => exact .inr ⟨⟨closed, rfl⟩, rfl, rfl, rfl⟩
    | some lex => exact .inl ⟨_, .fragment rfl rfl, rfl, nofun⟩

theorem readParts_tiled (fragment? : Option (Nat → List Char → Lexed)) (offset : Nat) (hraw : ∀ part ∈ ps, part.raw ≠ []) :
    Tiled offset (readParts fragment? offset ps).pieces
      (if fragment?.isNone then deepSpans (readParts fragment? offset ps).faults else [])
      (offset + byteWidth (ps.flatMap (·.raw))) := by
  induction ps generalizing offset with
  | nil =>
    rw [List.flatMap_nil, byteWidth_nil, Nat.add_zero]
    cases fragment? <;> exact .nil offset
  | cons part ps ih =>
    have hrest := ih (offset + byteWidth part.raw) fun p hp => hraw p (List.mem_cons_of_mem _ hp)
    have hwide := length_le_byteWidth part.raw
    have hpos := List.length_pos_iff.2 (hraw part List.mem_cons_self)
    rw [List.flatMap_cons, byteWidth_append, ← Nat.add_assoc]
    obtain ⟨piece, hgives, hpieces, hfaults⟩ | ⟨-, hnone, hpieces, hfaults⟩ := readParts_cases fragment? offset part ps
    · have hspan := hgives.span_eq
      have hgaps : (if fragment?.isNone then deepSpans (readParts fragment? offset (part :: ps)).faults else []) =
          if fragment?.isNone then deepSpans (readParts fragment? (offset + byteWidth part.raw) ps).faults else [] := by
        cases fragment? with
        | none => exact hfaults rfl
        | some lex => rfl
      rw [hpieces, hgaps]
      refine .piece (by rw [hspan]) (by rw [hspan]; dsimp only; omega) ?_
      rw [hspan]
      exact hrest
    · rw [hnone] at hpieces hfaults hrest ⊢
      rw [hpieces]
      show Tiled offset _ (deepSpans _) _
      rw [hfaults]
      exact .gap rfl (by dsimp only; omega) hrest

theorem Part.Stands.head (part : Part) (offset : Nat) (ps : List Part) :
    part.Stands offset (part :: ps) ⟨offset, offset + byteWidth part.raw⟩ :=
  ⟨[], ps, rfl, rfl⟩

theorem Part.Stands.behind {span : Span} (first : Part) (h : part.Stands (offset + byteWidth first.raw) ps span) :
    part.Stands offset (first :: ps) span := by
  obtain ⟨front, back, rfl, hspan⟩ := h
  rw [Nat.add_assoc offset, ← byteWidth_append, ← List.flatMap_cons] at hspan
  exact ⟨first :: front, back, rfl, hspan⟩

/-- A piece comes from a part, and stands where that does. -/
theorem exists_part_of_piece {piece : Piece} (h : piece ∈ (readParts fragment? offset ps).pieces) :
    ∃ part span, Part.Stands part offset ps span ∧ part.Gives fragment? span piece := by
  induction ps generalizing offset with
  | nil => exact absurd h List.not_mem_nil
  | cons part ps ih =>
    obtain ⟨first, hgives, hpieces, -⟩ | ⟨-, -, hpieces, -⟩ := readParts_cases fragment? offset part ps
    · rw [hpieces] at h
      obtain rfl | h := List.mem_cons.1 h
      · exact ⟨part, _, .head part offset ps, hgives⟩
      · obtain ⟨part', span, hstands, hgives'⟩ := ih h
        exact ⟨part', span, hstands.behind part, hgives'⟩
    · rw [hpieces] at h
      obtain ⟨part', span, hstands, hgives'⟩ := ih h
      exact ⟨part', span, hstands.behind part, hgives'⟩

/-- A gap is where a fragment stands. -/
theorem exists_part_of_gap {span : Span} (h : span ∈ deepSpans (readParts none offset ps).faults) :
    ∃ part closed, Part.Stands part offset ps span ∧ part.kind = .fragment closed := by
  induction ps generalizing offset with
  | nil => exact absurd h List.not_mem_nil
  | cons part ps ih =>
    obtain ⟨_, -, -, hfaults⟩ | ⟨⟨closed, hkind⟩, -, -, hfaults⟩ := readParts_cases none offset part ps
    · rw [hfaults rfl] at h
      obtain ⟨part', closed, hstands, hkind⟩ := ih h
      exact ⟨part', closed, hstands.behind part, hkind⟩
    · rw [hfaults] at h
      obtain rfl | h := List.mem_cons.1 h
      · exact ⟨part, closed, .head part offset ps, hkind⟩
      · obtain ⟨part', closed', hstands, hkind'⟩ := ih h
        exact ⟨part', closed', hstands.behind part, hkind'⟩

theorem le_of_mem_readParts {piece : Piece} (h : piece ∈ (readParts fragment? offset ps).pieces) : offset ≤ piece.span.start := by
  obtain ⟨part, span, ⟨front, back, -, hspan⟩, hgives⟩ := exists_part_of_piece h
  rw [hgives.span_eq, hspan]
  exact Nat.le_add_right _ _

/-- Between two texts there is something else. -/
def Piece.Apart : Piece → Piece → Prop
  | .text _ a, .text _ b => a.stop < b.start
  | _, _ => True

theorem Part.Gives.apart {span : Span} {piece next : Piece} (h : part.Gives fragment? span piece)
    (hnext : part.kind = .text → (∀ text span, next ≠ .text text span) ∨ span.stop < next.span.start) : piece.Apart next := by
  cases h with
  | text kind =>
    cases next with
    | text text span' => exact (hnext kind).resolve_left fun hnot => hnot text span' rfl
    | _ => trivial
  | _ => trivial

theorem readParts_apart (fragment? : Option (Nat → List Char → Lexed)) (offset : Nat) (hraw : ∀ part ∈ ps, part.raw ≠ [])
    (h : ps.IsChain Part.Follows) : (readParts fragment? offset ps).pieces.IsChain Piece.Apart := by
  induction ps generalizing offset with
  | nil => exact .nil
  | cons part ps ih =>
    have hrest := ih (offset + byteWidth part.raw) (fun p hp => hraw p (List.mem_cons_of_mem _ hp)) h.tail
    obtain ⟨piece, hgives, hpieces, -⟩ | ⟨-, -, hpieces, -⟩ := readParts_cases fragment? offset part ps
    · rw [hpieces]
      refine hrest.cons fun next hnext => hgives.apart fun hkind => ?_
      cases ps with
      | nil => cases hnext
      | cons second ps =>
        have hother := (List.isChain_cons_cons.1 h).1.text hkind
        obtain ⟨first, hfirst, hpieces', -⟩ | ⟨-, -, hpieces', -⟩ :=
          readParts_cases fragment? (offset + byteWidth part.raw) second ps
        · rw [hpieces'] at hnext
          obtain rfl := Option.some.inj hnext
          left
          rintro text span rfl
          cases hfirst with
          | text kind => exact hother kind
        · rw [hpieces'] at hnext
          have hle := le_of_mem_readParts (List.mem_of_mem_head? hnext)
          have hwide := length_le_byteWidth second.raw
          have hpos := List.length_pos_iff.2 (hraw second (List.mem_cons_of_mem _ List.mem_cons_self))
          right
          dsimp only
          omega
    · rw [hpieces]
      exact hrest

end

/-! ## Streams by their depth -/

/-- The streams of a document, and in how many fragments one within another they are. -/
inductive StreamAt (source : String) : Nat → List Token → Prop
  | whole : StreamAt source 0 (lex source).tokens
  | fragment {depth : Nat} {tokens inner : List Token} {token : Token} {multiline : Bool} {pieces : List Piece} {span : Span}
    (outer : StreamAt source depth tokens) (mem : token ∈ tokens) (literal : token.kind = .str multiline pieces)
    (piece : .fragment inner span ∈ pieces) : StreamAt source (depth + 1) inner

theorem Stream.exists_depth {source : String} {tokens : List Token} (h : Stream source tokens) :
    ∃ depth, StreamAt source depth tokens := by
  induction h with
  | whole => exact ⟨0, .whole⟩
  | fragment outer hmem hliteral hpiece ih =>
    obtain ⟨depth, hdepth⟩ := ih
    exact ⟨depth + 1, .fragment hdepth hmem hliteral hpiece⟩

theorem StreamAt.stands {source : String} {depth : Nat} {tokens : List Token} (h : StreamAt source depth tokens) :
    ∃ levels before text after, depth + levels = fragmentLimit ∧ LexedFrom source levels before text after tokens := by
  induction h with
  | whole =>
    obtain ⟨before, text, after, hstands⟩ := exists_lexedFrom_whole source
    exact ⟨fragmentLimit, before, text, after, Nat.zero_add _, hstands⟩
  | fragment outer hmem hliteral hpiece ih =>
    obtain ⟨levels, before, text, after, hdepth, hstands⟩ := ih
    obtain ⟨front, _, _, lead, _, _, ps, part, _, _, levels', rfl, -, -, -, -, hinner⟩ :=
      hstands.fragment hmem hliteral hpiece
    exact ⟨levels', _, part.inner, _, by omega, hinner⟩

/-! ## Strings of a document -/

/-- How a string is written: its quotes, the margins of its body and the content between them. The scan of a string
that is closed ends at its last quote, and that of another string ends nowhere. -/
structure Quotes (source : String) (span : Span) (closed multiline : Bool) (before lead content trail after : List Char) :
    Prop where
  source_eq : source.toList = before ++ '"' :: (lead ++ content ++ trail) ++ (if closed then ['"'] else []) ++ after
  span_eq : span = ⟨byteWidth before, byteWidth (before ++ '"' :: (lead ++ content ++ trail) ++ if closed then ['"'] else [])⟩
  scan : literalLength [.text] (lead ++ content ++ trail ++ if closed then ['"'] else []) =
    if closed then some ((lead ++ content ++ trail).length + 1) else none
  margins : Margins multiline lead content trail

/-- A fragment as it is written in a content that ends at `hi`: all up to the brace that closes it, or all that is left. -/
def Interpolates (source : String) (hi : Nat) (span : Span) : Prop :=
  ∃ inner more, slice? source.toList ⟨span.start, hi⟩ = some ('$' :: '{' :: (inner ++ more)) ∧
    span.stop = span.start + 2 + byteWidth inner ∧
    (literalLength [.code 0] (inner ++ more) = some inner.length ∨ literalLength [.code 0] inner = none ∧ more = [])

/-- The pieces of a string and the gaps between them, in a content from `lo` to `hi`. -/
structure Tiles (source : String) (depth : Nat) (span : Span) (multiline : Bool) (lo hi : Nat) (pieces : List Piece)
    (gaps : List Span) : Prop where
  tiled : Tiled lo pieces gaps hi
  shallow : depth < fragmentLimit → gaps = []
  /-- The gaps are just what is reported as too deep. -/
  reported : depth = fragmentLimit →
    gaps = deepSpans ((lexWithin none source).faults.filter fun fault => span.holds fault.span)
  deep : depth = fragmentLimit → ∀ tokens place, .fragment tokens place ∉ pieces
  gap : ∀ place ∈ gaps, Interpolates source hi place
  fragment : ∀ tokens place, .fragment tokens place ∈ pieces → Interpolates source hi place
  text : ∀ text place, .text text place ∈ pieces → text ≠ "" ∧ slice? source.toList place = some text.toList ∧
    '\\' ∉ text.toList ∧ ¬['$', '{'] <:+: text.toList
  apart : pieces.IsChain Piece.Apart
  indent : ∀ place, .indent place ∈ pieces → multiline = true ∧
    ∃ lines rest, source.toList = lines ++ '\n' :: rest ∧ place.start = byteWidth lines + 1

section

variable {source : String} {pre content tail : List Char} {multiline : Bool} {part : Part} {place : Span}

theorem Part.Stands.part_at (h : part.Stands (byteWidth pre) (parts multiline content) place)
    (hsource : source.toList = pre ++ content ++ tail) : ∃ ps qs, parts multiline content = ps ++ part :: qs ∧
      place.stop = place.start + byteWidth part.raw ∧
      At source.toList place.start (part.raw ++ (qs.flatMap (·.raw) ++ tail)) ∧
      place.start + byteWidth (part.raw ++ qs.flatMap (·.raw)) = byteWidth (pre ++ content) ∧
      source.toList = pre ++ ps.flatMap (·.raw) ++ (part.raw ++ (qs.flatMap (·.raw) ++ tail)) ∧
      place.start = byteWidth (pre ++ ps.flatMap (·.raw)) := by
  obtain ⟨ps, qs, hparts, rfl⟩ := h
  have hcontent := flatMap_raw_parts multiline content
  rw [hparts, List.flatMap_append, List.flatMap_cons] at hcontent
  have hstart : byteWidth pre + byteWidth (ps.flatMap (·.raw)) = byteWidth (pre ++ ps.flatMap (·.raw)) :=
    (byteWidth_append _ _).symm
  have hsplit : source.toList = pre ++ ps.flatMap (·.raw) ++ (part.raw ++ (qs.flatMap (·.raw) ++ tail)) := by
    rw [hsource, ← hcontent]
    simp only [List.append_assoc]
  refine ⟨ps, qs, hparts, rfl, ⟨_, hsplit, hstart⟩, ?_, hsplit, hstart⟩
  rw [← hcontent, ← List.append_assoc, hstart, ← byteWidth_append]

theorem Part.Stands.slice (h : part.Stands (byteWidth pre) (parts multiline content) place)
    (hsource : source.toList = pre ++ content ++ tail) : slice? source.toList place = some part.raw := by
  obtain ⟨ps, qs, -, hstop, hat, -⟩ := h.part_at hsource
  have hplace : place = ⟨place.start, place.start + byteWidth part.raw⟩ := by rw [← hstop]
  rw [hplace]
  exact hat.slice

theorem Part.Stands.interpolates (h : part.Stands (byteWidth pre) (parts multiline content) place)
    (hsource : source.toList = pre ++ content ++ tail) {closed : Bool} (hkind : part.kind = .fragment closed) :
    Interpolates source (byteWidth (pre ++ content)) place := by
  obtain ⟨ps, qs, hparts, hstop, hat, hwidth, -⟩ := h.part_at hsource
  obtain ⟨atLineStart, -, hfirst⟩ := exists_firstPart (Nat.le_refl _) id hparts
  rw [hfirst] at hkind
  obtain ⟨inner, more, hcontent, hraw, hscan⟩ := firstPart_of_fragment hkind
  rw [← hfirst] at hraw
  have hopening : byteWidth ('$' :: '{' :: inner) = 2 + byteWidth inner := by
    rw [byteWidth_cons, byteWidth_cons, ← Nat.add_assoc]
    rfl
  refine ⟨inner, more, ?_, ?_, hscan⟩
  · rw [← hwidth, ← hcontent]
    rw [← List.append_assoc] at hat
    exact hat.slice
  · rw [hstop, hraw, hopening, Nat.add_assoc]

theorem Part.Stands.text (h : part.Stands (byteWidth pre) (parts multiline content) place) (hkind : part.kind = .text) :
    part.raw ≠ [] ∧ '\\' ∉ part.raw ∧ ¬['$', '{'] <:+: part.raw := by
  obtain ⟨ps, qs, hparts, -⟩ := h
  obtain ⟨atLineStart, -, hfirst⟩ := exists_firstPart (Nat.le_refl _) id hparts
  have hkind' := hkind
  rw [hfirst] at hkind'
  obtain ⟨-, -, -, heq⟩ := firstPart_of_text hkind'
  rw [← hfirst] at heq
  have hraw : part.raw = _ := congrArg Part.raw heq
  have hwide := (apt_parts multiline content part (hparts ▸ List.mem_append_right _ List.mem_cons_self)).wide
  refine ⟨hwide, ?_⟩
  rw [hraw]
  exact plain_of_textLength multiline _

/-- A marker stands behind a line break, of the content or before it. -/
theorem Part.Stands.indent {lead trail : List Char} (h : part.Stands (byteWidth pre) (parts multiline content) place)
    (hsource : source.toList = pre ++ content ++ tail) (hmargins : Margins multiline lead content trail)
    (hlead : lead <:+ pre) (hkind : part.kind = .indent) :
    multiline = true ∧ ∃ lines rest, source.toList = lines ++ '\n' :: rest ∧ place.start = byteWidth lines + 1 := by
  obtain ⟨ps, qs, hparts, -, -, -, hsplit, hstart⟩ := h.part_at hsource
  obtain ⟨atLineStart, hlines, hfirst⟩ := exists_firstPart (Nat.le_refl _) id hparts
  have hkind' := hkind
  rw [hfirst] at hkind'
  have hmultiline := hlines (firstPart_of_indent hkind').1
  refine ⟨hmultiline, ?_⟩
  have hbreak : ∃ lines, pre ++ ps.flatMap (·.raw) = lines ++ ['\n'] := by
    obtain rfl | ⟨front, before, rfl⟩ := List.eq_nil_or_concat' ps
    · obtain ⟨opening, rfl⟩ := hlead
      rw [List.flatMap_nil, List.append_nil]
      subst hmultiline
      cases hmargins with
      | empty => exact ⟨_, (List.append_assoc ..).symm⟩
      | stripped => exact ⟨_, (List.append_assoc ..).symm⟩
      | kept => exact ⟨_, (List.append_assoc ..).symm⟩
    · have hchain := chain_cutParts multiline content.length multiline content
      rw [List.append_assoc, List.singleton_append] at hparts
      rw [show cutParts multiline content.length multiline content = front ++ before :: part :: qs from hparts] at hchain
      obtain ⟨line, hline⟩ := (List.isChain_cons_cons.1 hchain.right_of_append).1.indent hkind
      refine ⟨pre ++ front.flatMap (·.raw) ++ line, ?_⟩
      rw [List.flatMap_append, List.flatMap_singleton, hline]
      simp only [List.append_assoc]
  obtain ⟨lines, hbreak⟩ := hbreak
  have hwidth : byteWidth ['\n'] = 1 := by decide
  rw [hbreak] at hsplit hstart
  rw [byteWidth_append, hwidth] at hstart
  rw [List.append_assoc, List.singleton_append] at hsplit
  exact ⟨lines, _, hsplit, hstart⟩

/-! ## Pieces of a content -/

theorem interpolates_of_gap (hsource : source.toList = pre ++ content ++ tail)
    (h : place ∈ deepSpans (readParts none (byteWidth pre) (parts multiline content)).faults) :
    Interpolates source (byteWidth (pre ++ content)) place := by
  obtain ⟨part, closed, hpart, hkind⟩ := exists_part_of_gap h
  exact hpart.interpolates hsource hkind

variable {fragment? : Option (Nat → List Char → Lexed)}

theorem interpolates_of_piece (hsource : source.toList = pre ++ content ++ tail) {tokens : List Token}
    (h : .fragment tokens place ∈ (readParts fragment? (byteWidth pre) (parts multiline content)).pieces) :
    fragment? ≠ none ∧ Interpolates source (byteWidth (pre ++ content)) place := by
  obtain ⟨part, span, hpart, hgives⟩ := exists_part_of_piece h
  cases hgives with
  | fragment hkind hsome =>
    refine ⟨fun hnone => ?_, hpart.interpolates hsource hkind⟩
    cases hnone.symm.trans hsome

theorem text_of_piece (hsource : source.toList = pre ++ content ++ tail) {text : String}
    (h : .text text place ∈ (readParts fragment? (byteWidth pre) (parts multiline content)).pieces) :
    text ≠ "" ∧ slice? source.toList place = some text.toList ∧ '\\' ∉ text.toList ∧ ¬['$', '{'] <:+: text.toList := by
  obtain ⟨part, span, hpart, hgives⟩ := exists_part_of_piece h
  cases hgives with
  | text hkind =>
    obtain ⟨hwide, hplain⟩ := hpart.text hkind
    rw [String.toList_ofList]
    refine ⟨fun hempty => hwide ?_, hpart.slice hsource, hplain⟩
    rw [← String.toList_ofList (l := part.raw), hempty]
    rfl

theorem indent_of_piece {lead trail : List Char} (hsource : source.toList = pre ++ content ++ tail)
    (hmargins : Margins multiline lead content trail) (hlead : lead <:+ pre)
    (h : .indent place ∈ (readParts fragment? (byteWidth pre) (parts multiline content)).pieces) :
    multiline = true ∧ ∃ lines rest, source.toList = lines ++ '\n' :: rest ∧ place.start = byteWidth lines + 1 := by
  obtain ⟨part, span, hpart, hgives⟩ := exists_part_of_piece h
  cases hgives with
  | indent hkind => exact hpart.indent hsource hmargins hlead hkind

end

theorem deepSpans_append (faults faults' : List LexFault) : deepSpans (faults ++ faults') = deepSpans faults ++ deepSpans faults' := by
  rw [deepSpans, List.filter_append, List.map_append]
  rfl

/-- The pieces of every string tile its content, but for fragments in a string that is in too many of them. -/
theorem pieces_tile {source : String} {depth : Nat} {tokens : List Token} (h : StreamAt source depth tokens) {token : Token}
    (hmem : token ∈ tokens) {multiline : Bool} {pieces : List Piece} (hliteral : token.kind = .str multiline pieces) :
    depth ≤ fragmentLimit ∧ ∃ closed before lead content trail after gaps,
      Quotes source token.span closed multiline before lead content trail after ∧
      Tiles source depth token.span multiline (byteWidth (before ++ '"' :: lead)) (byteWidth (before ++ '"' :: lead ++ content))
        pieces gaps := by
  obtain ⟨levels, before, text, after, hdepth, hstands⟩ := h.stands
  obtain ⟨front, back, closed, lead, content, trail, hread⟩ := exists_readString (hstands.tokens_eq ▸ hmem) hliteral
  have hquote : '"'.utf8Size = 1 := by decide
  have htext := flatMap_raw_lexemes text
  rw [hread.lexemes_eq, List.flatMap_append, List.flatMap_cons] at htext
  have hstart : token.span.start + 1 + byteWidth lead = byteWidth (before ++ front.flatMap (·.raw) ++ '"' :: lead) := by
    rw [hread.start, byteWidth_append, byteWidth_append, byteWidth_cons, hquote]
    omega
  have hsource : source.toList = before ++ front.flatMap (·.raw) ++ '"' :: lead ++ content ++
      (trail ++ (if closed then ['"'] else []) ++ (back.flatMap (·.raw) ++ after)) := by
    rw [hstands.source_eq, ← htext]
    simp only [List.append_assoc, List.cons_append]
  have hraw : ∀ part ∈ parts multiline content, part.raw ≠ [] := fun part hpart => (apt_parts multiline content part hpart).wide
  have hpieces := hread.pieces_eq
  have hfaults := hread.faults_eq
  rw [hstart] at hpieces hfaults
  have hlead : lead <:+ before ++ front.flatMap (·.raw) ++ '"' :: lead := (List.suffix_cons '"' lead).trans (List.suffix_append _ _)
  refine ⟨by omega, closed, before ++ front.flatMap (·.raw), lead, content, trail, back.flatMap (·.raw) ++ after,
    if (fragmentsAt none levels).isNone then
      deepSpans (readParts (fragmentsAt none levels) (byteWidth (before ++ front.flatMap (·.raw) ++ '"' :: lead))
        (parts multiline content)).faults
    else [], ⟨?_, ?_, hread.scan, hread.margins⟩, ⟨?_, ?_, ?_, ?_, ?_, ?_, ?_, ?_, ?_⟩⟩
  · rw [hsource]
    simp only [List.append_assoc, List.cons_append]
  · have hstop := hread.stop
    rw [List.append_assoc _ ('"' :: _), byteWidth_append (before ++ _), byteWidth_append before, ← hread.start, ← hstop]
  · have htiled := readParts_tiled (fragmentsAt none levels) (byteWidth (before ++ front.flatMap (·.raw) ++ '"' :: lead)) hraw
    rwa [flatMap_raw_parts, ← byteWidth_append, ← hpieces] at htiled
  · intro hshallow
    obtain ⟨levels, rfl⟩ : ∃ n, levels = n + 1 := ⟨levels - 1, by omega⟩
    rfl
  · intro hlimit
    obtain rfl : levels = 0 := by omega
    have hwidth : token.span.stop = token.span.start + _ := hread.stop
    rw [hstands.faults_within hread.lexemes_eq hread.start hwidth, hfaults, deepSpans_append]
    cases closed <;> rfl
  · intro hlimit tokens' place hpiece
    obtain rfl : levels = 0 := by omega
    exact (interpolates_of_piece hsource (hpieces ▸ hpiece)).1 rfl
  · intro place hplace
    cases levels with
    | zero => exact interpolates_of_gap hsource hplace
    | succ levels => exact absurd hplace List.not_mem_nil
  · intro tokens' place hpiece
    exact (interpolates_of_piece hsource (hpieces ▸ hpiece)).2
  · intro text' place hpiece
    exact text_of_piece hsource (hpieces ▸ hpiece)
  · rw [hpieces]
    exact readParts_apart _ _ hraw (chain_cutParts _ _ _ _)
  · intro place hpiece
    exact indent_of_piece hsource hread.margins hlead (hpieces ▸ hpiece)

/-- A string with a marked line, in a fragment of another one. -/
theorem pieces_tile_marked : ∃ tokens token,
    StreamAt "\"a$\x7b\"\n  | x\n\"\x7d\"" 1 tokens ∧ token ∈ tokens ∧
      token.kind = .str true [.indent ⟨6, 10⟩, .text "x" ⟨10, 11⟩] ∧ 1 ≤ fragmentLimit ∧
      ∃ closed before lead content trail after gaps,
        Quotes "\"a$\x7b\"\n  | x\n\"\x7d\"" token.span closed true before lead content trail after ∧
        Tiles "\"a$\x7b\"\n  | x\n\"\x7d\"" 1 token.span true (byteWidth (before ++ '"' :: lead))
          (byteWidth (before ++ '"' :: lead ++ content)) [.indent ⟨6, 10⟩, .text "x" ⟨10, 11⟩] gaps := by
  have hliteral : (lex "\"a$\x7b\"\n  | x\n\"\x7d\"").tokens[0]? =
      some ⟨.str false [.text "a" ⟨1, 2⟩, .fragment
        [⟨.str true [.indent ⟨6, 10⟩, .text "x" ⟨10, 11⟩], ⟨4, 13⟩⟩, ⟨.done, .point 13⟩] ⟨2, 14⟩], ⟨0, 15⟩⟩ := rfl
  have hinner : StreamAt "\"a$\x7b\"\n  | x\n\"\x7d\"" 1
      [⟨.str true [.indent ⟨6, 10⟩, .text "x" ⟨10, 11⟩], ⟨4, 13⟩⟩, ⟨.done, .point 13⟩] :=
    .fragment .whole (List.mem_of_getElem? hliteral) rfl (List.mem_cons_of_mem _ List.mem_cons_self)
  exact ⟨_, _, hinner, List.mem_cons_self, rfl, pieces_tile hinner List.mem_cons_self rfl⟩

end JuiceSyntax
