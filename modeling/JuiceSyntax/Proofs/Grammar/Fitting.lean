/-
  Nodes over the tokens they are read from. `Whole range frame`: the frame goes from the first token of
  the range to the last, and the nodes inside it fit in the range, one after another. Segments fit the
  pieces of a string token, and the tokens of a fragment, but for their end, are one whole node.

  `Fits.exact`: in the streams of a document nodes that fit are exact.
-/
import JuiceSyntax.Proofs.Grammar.Range
import JuiceSyntax.Proofs.Token.Streams
import JuiceSyntax.Proofs.Tree.Frame

namespace JuiceSyntax

/-! ## Spans of ranges -/

/-- The span goes from the first token to the last. -/
def Spans (tokens : List Token) (span : Span) : Prop :=
  ∃ first last, tokens.head? = some first ∧ tokens.getLast? = some last ∧ span = ⟨first.span.start, last.span.stop⟩

/-- The span is that of the first tokens. -/
def Starts (tokens : List Token) (span : Span) : Prop := ∃ range rest, tokens = range ++ rest ∧ Spans range span

/-- The span is that of the last tokens. -/
def Ends (tokens : List Token) (span : Span) : Prop := ∃ front range, tokens = front ++ range ∧ Spans range span

section

variable {tokens range rest : List Token} {span first last : Span}

theorem spans_single (token : Token) : Spans [token] token.span := ⟨token, token, rfl, rfl, rfl⟩

theorem Spans.ne_nil (h : Spans tokens span) : tokens ≠ [] := by
  obtain ⟨first, -, hfirst, -⟩ := h
  rintro rfl
  cases hfirst

theorem Spans.starts (h : Spans tokens span) : Starts tokens span := ⟨tokens, [], (List.append_nil _).symm, h⟩

theorem Spans.ends (h : Spans tokens span) : Ends tokens span := ⟨[], tokens, rfl, h⟩

theorem Starts.append (h : Starts tokens span) (rest : List Token) : Starts (tokens ++ rest) span := by
  obtain ⟨range, more, rfl, hspans⟩ := h
  exact ⟨range, more ++ rest, List.append_assoc _ _ _, hspans⟩

theorem Ends.append (h : Ends tokens span) (front : List Token) : Ends (front ++ tokens) span := by
  obtain ⟨more, range, rfl, hspans⟩ := h
  exact ⟨front ++ more, range, (List.append_assoc _ _ _).symm, hspans⟩

theorem starts_of_head {token : Token} (h : tokens.head? = some token) : Starts tokens token.span := by
  obtain ⟨rest, rfl⟩ := List.head?_eq_some_iff.1 h
  exact ⟨[token], rest, rfl, spans_single token⟩

theorem ends_of_last {token : Token} (h : tokens.getLast? = some token) : Ends tokens token.span := by
  obtain ⟨front, rfl⟩ := List.getLast?_eq_some_iff.1 h
  exact ⟨front, [token], rfl, spans_single token⟩

/-- From the first tokens to the last. -/
theorem Ranged.cover (h : Ranged tokens) (hstarts : Starts tokens first) (hends : Ends tokens last) :
    Spans tokens (first.cover last) := by
  obtain ⟨range, rest, hfront, a, b, ha, hb, rfl⟩ := hstarts
  obtain ⟨front, range', hback, c, d, hc, hd, rfl⟩ := hends
  have hhead : tokens.head? = some a := by rw [hfront, List.head?_append, ha]; rfl
  have hlast : tokens.getLast? = some d := by rw [hback, List.getLast?_append, hd]; rfl
  have hstart := h.start_le hhead c (hback ▸ List.mem_append_right _ (List.mem_of_head? hc))
  have hstop := h.le_stop hlast b (hfront ▸ List.mem_append_left _ (List.mem_of_getLast? hb))
  refine ⟨a, d, hhead, hlast, ?_⟩
  rw [Span.cover, Nat.min_eq_left hstart, Nat.max_eq_right hstop]

end

/-! ## Nodes that fit -/

/-- What nodes are read from. -/
inductive Site where
  | tokens (tokens : List Token)
  | pieces (pieces : List Piece)

/-- The nodes are read one after another, each from tokens of its own. -/
inductive Fits : Site → List Frame → Prop
  | nil (site : Site) : Fits site []
  | pass (token : Token) {rest : List Token} {nodes : List Frame} (following : Fits (.tokens rest) nodes) :
    Fits (.tokens (token :: rest)) nodes
  | whole {range rest : List Token} {span : Span} {inner nodes : List Frame} (spans : Spans range span)
    (inside : Fits (.tokens range) inner) (following : Fits (.tokens rest) nodes) :
    Fits (.tokens (range ++ rest)) (.whole span inner :: nodes)
  | literal {token : Token} {rest : List Token} {multiline : Bool} {pieces : List Piece} {segments nodes : List Frame}
    (kind : token.kind = .str multiline pieces) (inside : Fits (.pieces pieces) segments)
    (following : Fits (.tokens rest) nodes) : Fits (.tokens (token :: rest)) (segments ++ nodes)
  | text (text : String) (span : Span) {rest : List Piece} {nodes : List Frame} (following : Fits (.pieces rest) nodes) :
    Fits (.pieces (.text text span :: rest)) (.text span :: nodes)
  | escape (value : Char) (raw : String) (span : Span) {rest : List Piece} {nodes : List Frame}
    (following : Fits (.pieces rest) nodes) : Fits (.pieces (.escape value raw span :: rest)) (.text span :: nodes)
  | indent (span : Span) {rest : List Piece} {nodes : List Frame} (following : Fits (.pieces rest) nodes) :
    Fits (.pieces (.indent span :: rest)) nodes
  | fragment {body : List Token} {last : Token} (span : Span) {inner : Frame} {rest : List Piece} {nodes : List Frame}
    (inside : Fits (.tokens body) [inner]) (following : Fits (.pieces rest) nodes) :
    Fits (.pieces (.fragment (body ++ [last]) span :: rest)) (.fragment span inner :: nodes)

/-- The frame is that of all of the tokens. -/
def Whole (tokens : List Token) (frame : Frame) : Prop :=
  ∃ span inner, frame = .whole span inner ∧ Spans tokens span ∧ Fits (.tokens tokens) inner

namespace Fits

variable {tokens range : List Token} {nodes nodes' : List Frame}

theorem before (front : List Token) (h : Fits (.tokens range) nodes) : Fits (.tokens (front ++ range)) nodes := by
  induction front with
  | nil => exact h
  | cons token front ih => exact .pass token ih

theorem append (h : Fits (.tokens tokens) nodes) (h' : Fits (.tokens range) nodes') :
    Fits (.tokens (tokens ++ range)) (nodes ++ nodes') := by
  generalize hsite : Site.tokens tokens = site at h
  induction h generalizing tokens with
  | nil => exact h'.before tokens
  | pass token following ih =>
    cases hsite
    exact .pass token (ih rfl)
  | whole spans inside following _ ih =>
    cases hsite
    rw [List.append_assoc]
    exact .whole spans inside (ih rfl)
  | literal kind inside following _ ih =>
    cases hsite
    rw [List.append_assoc]
    exact .literal kind inside (ih rfl)
  | text | escape | indent | fragment => cases hsite

theorem after (rest : List Token) (h : Fits (.tokens tokens) nodes) : Fits (.tokens (tokens ++ rest)) nodes := by
  have happend := h.append (.nil (.tokens rest))
  rwa [List.append_nil] at happend

end Fits

namespace Whole

variable {tokens : List Token} {frame : Frame}

theorem fits (h : Whole tokens frame) : Fits (.tokens tokens) [frame] := by
  obtain ⟨span, inner, rfl, hspans, hfits⟩ := h
  have hwhole := Fits.whole hspans hfits (.nil (.tokens []))
  rwa [List.append_nil] at hwhole

theorem of_leaf {span : Span} (h : Spans tokens span) : Whole tokens (.leaf span) := ⟨span, [], rfl, h, .nil _⟩

/-- The first tokens of the node and its last ones are known. -/
theorem of_cover {first last : Span} {inner : List Frame} (hranged : Ranged tokens) (hstarts : Starts tokens first)
    (hends : Ends tokens last) (h : Fits (.tokens tokens) inner) : Whole tokens (.whole (first.cover last) inner) :=
  ⟨_, inner, rfl, hranged.cover hstarts hends, h⟩

/-- Two nodes, with tokens between them that are of neither. -/
theorem pair {front mid back : List Token} {left right : Frame} {first last : Span} (hranged : Ranged (front ++ mid ++ back))
    (hleft : Whole front left) (hright : Whole back right) (hfirst : Spans front first) (hlast : Spans back last) :
    Whole (front ++ mid ++ back) (.whole (first.cover last) [left, right]) :=
  of_cover hranged ((hfirst.starts.append _).append _) (hlast.ends.append _) ((hleft.fits.after mid).append hright.fits)

/-! The span of a node whose kind is known. -/

theorem spans_of_eq {span : Span} (h : Whole tokens frame) (heq : ∃ inner, frame = .whole span inner) :
    Spans tokens span := by
  obtain ⟨inner, rfl⟩ := heq
  obtain ⟨span', inner', hframe, hspans, -⟩ := h
  cases hframe
  exact hspans

theorem ne_nil (h : Whole tokens frame) : tokens ≠ [] := by
  obtain ⟨span, inner, -, hspans, -⟩ := h
  exact hspans.ne_nil

theorem spans_expr {e : Expr} (h : Whole tokens e.frame) : Spans tokens e.span := by
  cases e
  exact h.spans_of_eq ⟨_, rfl⟩

theorem spans_type {t : TypeExpr} (h : Whole tokens t.frame) : Spans tokens t.span := by
  cases t
  exact h.spans_of_eq ⟨_, rfl⟩

theorem spans_block {b : Block} (h : Whole tokens b.frame) : Spans tokens b.span := by
  cases b
  exact h.spans_of_eq ⟨_, rfl⟩

theorem spans_fn {decl : FnDecl} (h : Whole tokens decl.frame) : Spans tokens decl.span := by
  cases decl
  exact h.spans_of_eq ⟨_, rfl⟩

theorem spans_pattern {pattern : Pattern} (h : Whole tokens pattern.frame) : Spans tokens pattern.span := by
  cases pattern with
  | value e => exact h.spans_expr
  | type t => exact h.spans_type

end Whole

/-! ## Pieces where they stand -/

/-- The pieces lie between two offsets, one after another. -/
inductive Lined : Nat → List Piece → Nat → Prop
  | nil {lo hi : Nat} (le : lo ≤ hi) : Lined lo [] hi
  | cons {lo hi : Nat} {piece : Piece} {rest : List Piece} (after : lo ≤ piece.span.start)
    (le : piece.span.start ≤ piece.span.stop) (following : Lined piece.span.stop rest hi) : Lined lo (piece :: rest) hi

namespace Lined

variable {lo lo' hi hi' : Nat} {pieces : List Piece}

theorem mono (h : Lined lo pieces hi) (hlo : lo' ≤ lo) (hhi : hi ≤ hi') : Lined lo' pieces hi' := by
  induction h generalizing lo' with
  | nil le => exact .nil (by omega)
  | cons after le following ih => exact .cons (by omega) le (ih (Nat.le_refl _) hhi)

theorem le (h : Lined lo pieces hi) : lo ≤ hi := by
  induction h with
  | nil le => exact le
  | cons after le following ih => omega

end Lined

theorem readParts_lined (fragment? : Option (Nat → List Char → Lexed)) (offset : Nat) (ps : List Part) :
    Lined offset (readParts fragment? offset ps).pieces (offset + byteWidth (ps.flatMap (·.raw))) := by
  induction ps generalizing offset with
  | nil => exact .nil (Nat.le_add_right _ _)
  | cons part rest ih =>
    have hrest := ih (offset + byteWidth part.raw)
    rw [List.flatMap_cons, byteWidth_append, ← Nat.add_assoc]
    have hcons (piece : Piece) (hspan : piece.span = ⟨offset, offset + byteWidth part.raw⟩) :
        Lined offset (piece :: (readParts fragment? (offset + byteWidth part.raw) rest).pieces)
          (offset + byteWidth part.raw + byteWidth (rest.flatMap (·.raw))) := by
      refine .cons ?_ ?_ ?_
      · exact Nat.le_of_eq (congrArg Span.start hspan).symm
      · rw [hspan]
        exact Nat.le_add_right _ _
      · rw [hspan]
        exact hrest
    unfold readParts
    cases part.kind with
    | fragment closed =>
      cases fragment? with
      | none => exact hrest.mono (Nat.le_add_right _ _) (Nat.le_refl _)
      | some lex => exact hcons _ rfl
    | _ => exact hcons _ rfl

/-- The pieces of a string lie in it. -/
theorem LexedFrom.lined {source : String} {levels : Nat} {before text after : List Char} {tokens : List Token}
    (h : LexedFrom source levels before text after tokens) {token : Token} (hmem : token ∈ tokens) {multiline : Bool}
    {pieces : List Piece} (hliteral : token.kind = .str multiline pieces) :
    Lined token.span.start pieces token.span.stop := by
  rw [h.tokens_eq] at hmem
  obtain ⟨front, back, closed, lead, content, trail, hread⟩ := exists_readString hmem hliteral
  have hquote : '"'.utf8Size = 1 := by decide
  have hlined := readParts_lined (fragmentsAt none levels) (token.span.start + 1 + byteWidth lead) (parts multiline content)
  rw [← hread.pieces_eq, flatMap_raw_parts] at hlined
  refine hlined.mono (by omega) ?_
  rw [hread.stop]
  simp only [List.cons_append, byteWidth_cons, byteWidth_append, hquote]
  omega

/-- A fragment that no brace closes takes all that is left. -/
theorem unclosed_firstPart {multiline atLineStart : Bool} {content : List Char}
    (h : (firstPart multiline atLineStart content).kind = .fragment false) :
    literalLength [.code 0] (firstPart multiline atLineStart content).inner = none := by
  obtain ⟨rest, -, ⟨n, -, heq⟩ | ⟨hlength, heq⟩⟩ := firstPart_fragment_cases h
  · rw [heq] at h
    cases h
  · rw [heq]
    exact hlength

theorem unclosed_parts {multiline : Bool} {content : List Char} {part : Part} (hmem : part ∈ parts multiline content)
    (h : part.kind = .fragment false) : literalLength [.code 0] part.inner = none := by
  have hunclosed : ∀ part ∈ parts multiline content, part.kind = .fragment false →
      literalLength [.code 0] part.inner = none := forall_cutParts (fun _ _ _ => unclosed_firstPart) _ _ _
  exact hunclosed part hmem h

/-- A fragment lies where it is written, and its tokens between its braces. -/
theorem LexedFrom.fragmentOf {source : String} {levels : Nat} {before text after : List Char} {stream tokens : List Token}
    (h : LexedFrom source levels before text after stream) {token : Token} (hmem : token ∈ stream) {multiline : Bool}
    {pieces : List Piece} {span : Span} (hliteral : token.kind = .str multiline pieces)
    (hpiece : .fragment tokens span ∈ pieces) :
    FragmentOf source.toList stream tokens span ∧ Laid span.start tokens span.stop := by
  obtain ⟨front, back, closed, lead, content, trail, ps, part, qs, closed', levels', -, hread, hparts, hkind, hspan, hinner⟩ :=
    h.fragment hmem hliteral hpiece
  have hpart : part ∈ parts multiline content := hparts ▸ List.mem_append_right _ List.mem_cons_self
  have hraw := (apt_parts multiline content part hpart).fragment closed' hkind
  have hopen : span.start + 2 = byteWidth (before ++ beforeFragment front lead ps ++ ['$', '{']) := by
    rw [hspan, byteWidth_append _ ['$', '{']]
    rfl
  have hwidth : byteWidth part.raw = 2 + byteWidth part.inner + byteWidth (if closed' then ['}'] else []) := by
    have hopening : byteWidth ('$' :: '{' :: part.inner) = 2 + byteWidth part.inner := by
      rw [byteWidth_cons, byteWidth_cons, ← Nat.add_assoc]
      rfl
    rw [hraw, byteWidth_append, hopening]
  refine ⟨⟨⟨token, hmem, multiline, pieces, hliteral, hpiece⟩, levels', part.inner, if closed' then ['}'] else [], ?_, ?_, ?_⟩, ?_⟩
  · have hsource : source.toList = (before ++ beforeFragment front lead ps) ++
        ('$' :: '{' :: (part.inner ++ if closed' then ['}'] else [])) ++ (afterFragment closed qs trail back ++ after) := by
      rw [hinner.source_eq]
      simp only [List.append_assoc, List.cons_append, List.nil_append]
    rw [hsource, hspan, hraw]
    exact slice?_middle _ _ _
  · rw [hopen]
    exact hinner.tokens_eq
  · cases closed' with
    | true => exact .inl rfl
    | false => exact .inr ⟨rfl, unclosed_parts hpart hkind⟩
  · rw [hinner.tokens_eq, ← hopen]
    refine (lexAt_laid none levels' (span.start + 2) part.inner).mono (Nat.le_add_right _ _) ?_
    rw [hspan]
    dsimp only
    omega

/-! ## Exact nodes -/

/-- A range of a stream between two offsets. -/
structure Lies (stream : List Token) (lo : Nat) (range : List Token) (hi : Nat) : Prop where
  ranged : Ranged range
  undone : Undone range
  subset : ∀ token ∈ range, token ∈ stream
  bounds : ∀ token ∈ range, lo ≤ token.span.start ∧ token.span.stop ≤ hi
  le : lo ≤ hi

namespace Lies

variable {stream range rest : List Token} {lo hi : Nat} {span : Span}

theorem edges (h : Lies stream lo range hi) (hspans : Spans range span) : Edges stream span := by
  obtain ⟨first, last, hfirst, hlast, rfl⟩ := hspans
  have hmem := List.mem_of_head? hfirst
  have hmem' := List.mem_of_getLast? hlast
  exact ⟨⟨first, h.subset _ hmem, h.undone _ hmem, rfl⟩, ⟨last, h.subset _ hmem', h.undone _ hmem', rfl⟩⟩

/-- The tokens of a node lie between its ends. -/
theorem within (h : Lies stream lo (range ++ rest) hi) (hspans : Spans range span) :
    lo ≤ span.start ∧ Lies stream span.start range span.stop ∧ Lies stream span.stop rest hi := by
  obtain ⟨first, last, hfirst, hlast, rfl⟩ := hspans
  have hmem := List.mem_of_head? hfirst
  have hmem' := List.mem_of_getLast? hlast
  have hrange := h.ranged.sublist (List.sublist_append_left range rest)
  refine ⟨(h.bounds first (List.mem_append_left _ hmem)).1, ⟨hrange, fun t ht => h.undone t (List.mem_append_left _ ht),
    fun t ht => h.subset t (List.mem_append_left _ ht), fun t ht => ⟨hrange.start_le hfirst t ht, hrange.le_stop hlast t ht⟩, ?_⟩,
    ⟨h.ranged.sublist (List.sublist_append_right _ _), fun t ht => h.undone t (List.mem_append_right _ ht),
      fun t ht => h.subset t (List.mem_append_right _ ht), fun t ht =>
        ⟨(List.pairwise_append.1 h.ranged.apart).2.2 last hmem' t ht, (h.bounds t (List.mem_append_right _ ht)).2⟩,
      (h.bounds last (List.mem_append_left _ hmem')).2⟩⟩
  have hwide := hrange.wide first hmem
  have hstop := hrange.le_stop hlast first hmem
  dsimp only
  omega

theorem tail {token : Token} (h : Lies stream lo (token :: rest) hi) : Lies stream lo rest hi :=
  ⟨h.ranged.sublist (List.sublist_cons_self _ _), fun t ht => h.undone t (List.mem_cons_of_mem _ ht),
    fun t ht => h.subset t (List.mem_cons_of_mem _ ht), fun t ht => h.bounds t (List.mem_cons_of_mem _ ht), h.le⟩

end Lies

/-- All of a stream but its end. -/
theorem Laid.lies {lo hi : Nat} {body : List Token} {last : Token} (h : Laid lo (body ++ [last]) hi) :
    Lies (body ++ [last]) lo body hi := by
  obtain ⟨body', last', heq, -, hundone, hranged, hbounds⟩ := h.ranged
  obtain ⟨rfl, rfl⟩ := List.append_inj' heq rfl |>.imp id (fun h => (List.cons.inj h).1)
  exact ⟨hranged, hundone, fun t ht => List.mem_append_left _ ht, hbounds, h.le⟩

/-- Where nodes that fit are exact. -/
def Site.Lies (stream : List Token) (lo hi : Nat) : Site → Prop
  | tokens range => JuiceSyntax.Lies stream lo range hi
  | pieces ps => Lined lo ps hi ∧
    ∃ token ∈ stream, ∃ multiline pieces, token.kind = .str multiline pieces ∧ ∀ piece ∈ ps, piece ∈ pieces

theorem Fits.exact {source : String} {site : Site} {nodes : List Frame} (h : Fits site nodes) {stream : List Token}
    (hstream : Stream source stream) {lo hi : Nat} (hlies : site.Lies stream lo hi) :
    Exact source.toList stream lo nodes hi := by
  induction h generalizing stream lo hi with
  | nil site =>
    cases site with
    | tokens range => exact .nil hlies.le
    | pieces ps => exact .nil hlies.1.le
  | pass token following ih => exact ih hstream (Lies.tail hlies)
  | whole spans inside following ihInside ihFollowing =>
    obtain ⟨hlo, hrange, hrest⟩ := Lies.within hlies spans
    exact .whole (Lies.edges hrange spans) hlo (ihInside hstream hrange) (ihFollowing hstream hrest)
  | @literal token rest multiline pieces segments nodes kind inside following ihInside ihFollowing =>
    obtain ⟨levels, before, text, after, hstands⟩ := hstream.stands
    have hlies : Lies stream lo ([token] ++ rest) hi := hlies
    obtain ⟨hlo, hrange, hrest⟩ := hlies.within (spans_single token)
    have hmem := hrange.subset token List.mem_cons_self
    have hlined := hstands.lined hmem kind
    have hsegments := ihInside hstream ⟨hlined, token, hmem, multiline, pieces, kind, fun _ hpiece => hpiece⟩
    exact (hsegments.mono hlo (Nat.le_refl _)).append (ihFollowing hstream hrest)
  | text text span following ih =>
    obtain ⟨hlined, token, hmem, multiline, pieces, kind, hsubset⟩ := hlies
    cases hlined with
    | cons after le rest =>
      exact .text after le (ih hstream ⟨rest, token, hmem, multiline, pieces, kind, fun p hp =>
        hsubset p (List.mem_cons_of_mem _ hp)⟩)
  | escape value raw span following ih =>
    obtain ⟨hlined, token, hmem, multiline, pieces, kind, hsubset⟩ := hlies
    cases hlined with
    | cons after le rest =>
      exact .text after le (ih hstream ⟨rest, token, hmem, multiline, pieces, kind, fun p hp =>
        hsubset p (List.mem_cons_of_mem _ hp)⟩)
  | indent span following ih =>
    obtain ⟨hlined, token, hmem, multiline, pieces, kind, hsubset⟩ := hlies
    cases hlined with
    | cons after le rest =>
      exact ih hstream ⟨rest.mono (Nat.le_trans after le) (Nat.le_refl _), token, hmem, multiline, pieces, kind,
        fun p hp => hsubset p (List.mem_cons_of_mem _ hp)⟩
  | fragment span inside following ihInside ihFollowing =>
    obtain ⟨hlined, token, hmem, multiline, pieces, kind, hsubset⟩ := hlies
    cases hlined with
    | cons after le rest =>
      have hpiece := hsubset _ List.mem_cons_self
      obtain ⟨levels, before, text, after', hstands⟩ := hstream.stands
      obtain ⟨hown, hlaid⟩ := hstands.fragmentOf hmem kind hpiece
      exact .fragment hown after (ihInside (.fragment hstream hmem kind hpiece) hlaid.lies)
        (ihFollowing hstream ⟨rest, token, hmem, multiline, pieces, kind, fun p hp =>
          hsubset p (List.mem_cons_of_mem _ hp)⟩)

end JuiceSyntax
