/-
  The macro bodies of a clean reading, where they are in the document. The notes survive every
  attempt that is given up, so that they are the bodies of the tree, each once and in order
  (`Noted.once`). In a stream of a document the bodies lie one behind another, each between two
  braces of one stream, that which is read or that of a fragment in it, and the tokens that a body
  keeps are just those of that stream that lie between its braces (`InPlace`).

  `Embedded.arranged`: bodies that stand in tokens of a stream are in their places.
  `macroBodies_noted`: the same of what is read, programs and expressions.
-/
import JuiceSyntax.Proofs.Grammar.MacroBodies

namespace JuiceSyntax

/-! ## Tokens in order -/

/-- Every token ends before the next one begins, and all but the end have some text. -/
structure Ordered (tokens : List Token) : Prop where
  apart : tokens.Pairwise fun token later => token.span.stop ≤ later.span.start
  upright : ∀ token ∈ tokens, token.span.start ≤ token.span.stop
  wide : ∀ token ∈ tokens, token.kind.isDone = false → token.span.start < token.span.stop

theorem Laid.apart {lo hi : Nat} {tokens : List Token} (h : Laid lo tokens hi) :
    (tokens.Pairwise fun token later => token.span.stop ≤ later.span.start) ∧
      ∀ token ∈ tokens, lo ≤ token.span.start := by
  induction h with
  | done after before => exact ⟨List.pairwise_singleton _ _, fun token hmem => by rwa [List.mem_singleton.1 hmem]⟩
  | cons mid after wide inner following _ ih =>
    obtain ⟨hapart, hlater⟩ := ih
    refine ⟨.cons hlater hapart, List.forall_mem_cons.2 ⟨after, fun later hmem => ?_⟩⟩
    have := hlater later hmem
    omega

theorem LexedFrom.laid {source : String} {levels : Nat} {before text after : List Char} {tokens : List Token}
    (h : LexedFrom source levels before text after tokens) :
    Laid (byteWidth before) tokens (byteWidth before + byteWidth text) := by
  rw [h.tokens_eq]
  exact lexAt_laid none levels _ text

theorem LexedFrom.ordered {source : String} {levels : Nat} {before text after : List Char} {tokens : List Token}
    (h : LexedFrom source levels before text after tokens) : Ordered tokens := by
  obtain ⟨hapart, -⟩ := h.laid.apart
  obtain ⟨body, last, heq, -, -, hranged, -⟩ := h.laid.ranged
  obtain ⟨offset, hlast⟩ : ∃ offset, last = ⟨.done, .point offset⟩ := by
    have htokens := h.tokens_eq
    rw [heq, lexAt_none, readLexemes_tokens] at htokens
    exact ⟨_, (List.append_inj' htokens rfl).2 |> List.singleton_inj.1⟩
  subst heq hlast
  refine ⟨hapart, fun token hmem => ?_, fun token hmem hmid => ?_⟩
  · obtain hmem | hmem := List.mem_append.1 hmem
    · exact Nat.le_of_lt (hranged.wide token hmem)
    · rw [List.mem_singleton.1 hmem]
      exact Nat.le_refl _
  · obtain hmem | hmem := List.mem_append.1 hmem
    · exact hranged.wide token hmem
    · rw [List.mem_singleton.1 hmem] at hmid
      cases hmid

/-- The tokens between two others are those that lie in the gap between these. -/
theorem Ordered.filter_between {front inner back : List Token} {opening closing : Token} {gap : Span}
    (h : Ordered (front ++ opening :: (inner ++ closing :: back))) (hopening : opening.kind.isDone = false)
    (hclosing : closing.kind.isDone = false) (hstart : gap.start = opening.span.stop) (hstop : gap.stop = closing.span.start) :
    (front ++ opening :: (inner ++ closing :: back)).filter (fun token => gap.holds token.span) = inner := by
  have hwide := h.wide opening (by simp) hopening
  have hwide' := h.wide closing (by simp) hclosing
  obtain ⟨-, hrest, hfront⟩ := List.pairwise_append.1 h.apart
  obtain ⟨hafter, hrest⟩ := List.pairwise_cons.1 hrest
  obtain ⟨-, hrest, hinner⟩ := List.pairwise_append.1 hrest
  obtain ⟨hback, -⟩ := List.pairwise_cons.1 hrest
  have hnone : front.filter (fun token => gap.holds token.span) = [] := by
    refine List.filter_eq_nil_iff.2 fun token hmem hholds => ?_
    have hle := hfront token hmem opening List.mem_cons_self
    have hupright := h.upright token (List.mem_append_left _ hmem)
    have hbound := (Span.holds_iff.1 hholds).1
    omega
  have hopening' : gap.holds opening.span = false := by
    simp only [Span.holds, Bool.and_eq_false_iff, decide_eq_false_iff_not]
    omega
  have hall : inner.filter (fun token => gap.holds token.span) = inner := by
    refine List.filter_eq_self.2 fun token hmem => Span.holds_iff.2 ⟨?_, ?_⟩
    · rw [hstart]
      exact hafter token (List.mem_append_left _ hmem)
    · rw [hstop]
      exact hinner token hmem closing List.mem_cons_self
  have hclosing' : gap.holds closing.span = false := by
    simp only [Span.holds, Bool.and_eq_false_iff, decide_eq_false_iff_not]
    omega
  have hnone' : back.filter (fun token => gap.holds token.span) = [] := by
    refine List.filter_eq_nil_iff.2 fun token hmem hholds => ?_
    have hle := hback token hmem
    have hupright := h.upright token (by simp [hmem])
    have hbound := (Span.holds_iff.1 hholds).2
    omega
  simp [hnone, hopening', hall, hclosing', hnone']

/-! ## Places of bodies -/

/-- The tokens themselves, or those of a fragment in a string among them, at any depth. -/
inductive NestedIn (tokens : List Token) : List Token → Prop
  | here : NestedIn tokens tokens
  | fragment {outer inner : List Token} {token : Token} {multiline : Bool} {pieces : List Piece} {span : Span}
    (reached : NestedIn tokens outer) (mem : token ∈ outer) (literal : token.kind = .str multiline pieces)
    (piece : .fragment inner span ∈ pieces) : NestedIn tokens inner

theorem NestedIn.trans {tokens outer inner : List Token} (h : NestedIn tokens outer) (h' : NestedIn outer inner) :
    NestedIn tokens inner := by
  induction h' with
  | here => exact h
  | fragment _ hmem hliteral hpiece ih => exact .fragment ih hmem hliteral hpiece

/-- The body is what stands in these tokens between two braces. -/
structure MacroBody.In (body : MacroBody) (own : List Token) : Prop where
  braced : ∃ front opening closing back, own = front ++ opening :: (body.tokens ++ closing :: back) ∧
    opening.kind = .mark .lBrace ∧ closing.kind = .mark .rBrace ∧ body.inner = ⟨opening.span.stop, closing.span.start⟩
  tokens_eq : body.tokens = own.filter fun token => body.inner.holds token.span

/-- The bodies lie one behind another, each in these tokens or in those of a fragment. -/
structure InPlace (tokens : List Token) (bodies : List MacroBody) : Prop where
  upright : ∀ body ∈ bodies, body.inner.start ≤ body.inner.stop
  apart : bodies.Pairwise fun body later => body.inner.stop < later.inner.start
  own : ∀ body ∈ bodies, ∃ own, NestedIn tokens own ∧ body.In own

/-- The same, between two offsets. -/
structure Arranged (tokens : List Token) (lo : Nat) (bodies : List MacroBody) (hi : Nat) : Prop extends
    InPlace tokens bodies where
  after : ∀ body ∈ bodies, lo < body.inner.start
  before : ∀ body ∈ bodies, body.inner.stop < hi

namespace Arranged

variable {tokens : List Token} {lo lo' mid hi hi' : Nat} {bodies bodies' : List MacroBody}

theorem nil : Arranged tokens lo [] hi := ⟨⟨nofun, .nil, nofun⟩, nofun, nofun⟩

theorem mono (h : Arranged tokens lo bodies hi) (hlo : lo' ≤ lo) (hhi : hi ≤ hi') : Arranged tokens lo' bodies hi' := by
  refine ⟨h.toInPlace, fun body hmem => ?_, fun body hmem => ?_⟩
  · exact Nat.lt_of_le_of_lt hlo (h.after body hmem)
  · exact Nat.lt_of_lt_of_le (h.before body hmem) hhi

theorem append (h : Arranged tokens lo bodies mid) (h' : Arranged tokens mid bodies' hi) (hlo : lo ≤ mid) (hhi : mid ≤ hi) :
    Arranged tokens lo (bodies ++ bodies') hi := by
  have hfront := h.mono (Nat.le_refl _) hhi
  have hback := h'.mono hlo (Nat.le_refl _)
  refine ⟨⟨List.forall_mem_append.2 ⟨h.upright, h'.upright⟩, ?_, List.forall_mem_append.2 ⟨h.own, h'.own⟩⟩,
    List.forall_mem_append.2 ⟨hfront.after, hback.after⟩, List.forall_mem_append.2 ⟨hfront.before, hback.before⟩⟩
  refine List.pairwise_append.2 ⟨h.apart, h'.apart, fun body hmem later hmem' => ?_⟩
  exact (h.before body hmem).trans (h'.after later hmem')

/-- Bodies in the tokens of a fragment are in those around it. -/
theorem outward {inner : List Token} (h : Arranged inner lo bodies hi) (hinner : NestedIn tokens inner) :
    Arranged tokens lo bodies hi := by
  refine ⟨⟨h.upright, h.apart, fun body hmem => ?_⟩, h.after, h.before⟩
  obtain ⟨own, hown, hin⟩ := h.own body hmem
  exact ⟨own, hinner.trans hown, hin⟩

end Arranged

/-! ## Bodies that stand in tokens of a stream -/

/-- Tokens of a site stand in the stream side by side. -/
def Site.Joined (stream : List Token) : Site → Prop
  | tokens range => ∃ front back, stream = front ++ (range ++ back)
  | pieces _ => True

/-- The first tokens of a stream lie in it, if the end is not among them. -/
theorem Laid.lies_front {lo hi : Nat} {range back : List Token} (h : Laid lo (range ++ back) hi) (hundone : Undone range) :
    Lies (range ++ back) lo range hi := by
  obtain ⟨body, last, heq, hdone, -, hranged, hbounds⟩ := h.ranged
  obtain ⟨more, rfl⟩ : range <+: body := by
    obtain hprefix | hprefix := List.prefix_or_prefix_of_prefix (List.prefix_append range back) (heq ▸ List.prefix_append body [last])
    · exact hprefix
    · obtain ⟨more, rfl⟩ := hprefix
      rw [List.append_assoc] at heq
      have hrest := List.append_cancel_left heq
      cases more with
      | nil => simp
      | cons token more =>
        obtain ⟨rfl, -⟩ := List.cons.inj hrest
        have hmid := hundone token (List.mem_append_right _ List.mem_cons_self)
        exact absurd (hdone.symm.trans hmid) (by decide)
  exact ⟨hranged.sublist (List.sublist_append_left _ _), hundone, fun t ht => List.mem_append_left _ ht,
    fun t ht => hbounds t (List.mem_append_left _ ht), h.le⟩

/-- The braces are tokens of the stream, so what lies between them is what stands between them. -/
theorem arranged_body {front back : List Token} {opening closing : Token} {body : MacroBody} {lo : Nat}
    (h : Ordered (front ++ opening :: (body.tokens ++ closing :: back))) (hopens : opening.kind = .mark .lBrace)
    (hcloses : closing.kind = .mark .rBrace) (hinner : body.inner = ⟨opening.span.stop, closing.span.start⟩)
    (hlo : lo ≤ opening.span.start) :
    Arranged (front ++ opening :: (body.tokens ++ closing :: back)) lo [body] closing.span.stop := by
  have hopening : opening.kind.isDone = false := by rw [hopens]; rfl
  have hclosing : closing.kind.isDone = false := by rw [hcloses]; rfl
  have hwide := h.wide opening (by simp) hopening
  have hwide' := h.wide closing (by simp) hclosing
  have hle : opening.span.stop ≤ closing.span.start := by
    obtain ⟨-, hrest, -⟩ := List.pairwise_append.1 h.apart
    exact (List.pairwise_cons.1 hrest).1 closing (by simp)
  have hin : body.In (front ++ opening :: (body.tokens ++ closing :: back)) := by
    refine ⟨⟨front, opening, closing, back, rfl, hopens, hcloses, hinner⟩, ?_⟩
    exact (h.filter_between hopening hclosing (congrArg Span.start hinner) (congrArg Span.stop hinner)).symm
  refine ⟨⟨?_, List.pairwise_singleton _ _, ?_⟩, ?_, ?_⟩
  · rw [List.forall_mem_singleton, hinner]
    exact hle
  · exact List.forall_mem_singleton.2 ⟨_, .here, hin⟩
  · rw [List.forall_mem_singleton, hinner]
    exact Nat.lt_of_le_of_lt hlo hwide
  · rw [List.forall_mem_singleton, hinner]
    exact hwide'

theorem Embedded.arranged {source : String} {site : Site} {bodies : List MacroBody} (h : Embedded site bodies)
    {stream : List Token} (hstream : Stream source stream) {lo hi : Nat} (hlies : site.Lies stream lo hi)
    (hjoined : site.Joined stream) : Arranged stream lo bodies hi := by
  induction h generalizing stream lo hi with
  | nil site => exact .nil
  | pass token following ih =>
    obtain ⟨front, back, hsplit⟩ := hjoined
    exact ih hstream (Lies.tail hlies) ⟨front ++ [token], back, by rw [hsplit]; simp⟩
  | @body opening closing inner rest text bodies opens closes following ih =>
    obtain ⟨levels, before, written, after, hstands⟩ := hstream.stands
    obtain ⟨front, back, hsplit⟩ := hjoined
    have hlies : Lies stream lo ((opening :: (inner ++ [closing])) ++ rest) hi := by
      rw [List.cons_append, List.append_assoc]
      exact hlies
    have hspans : Spans (opening :: (inner ++ [closing])) ⟨opening.span.start, closing.span.stop⟩ :=
      ⟨opening, closing, rfl, by rw [← List.cons_append]; exact List.getLast?_concat, rfl⟩
    obtain ⟨hlo, hrange, hrest⟩ := hlies.within hspans
    have hfollowing := ih hstream hrest ⟨front ++ opening :: (inner ++ [closing]), back, by rw [hsplit]; simp⟩
    have hstream' : stream = front ++ opening :: (inner ++ closing :: (rest ++ back)) := by
      rw [hsplit]
      simp
    have hordered := hstands.ordered
    rw [hstream'] at hordered hfollowing ⊢
    have hbody : Arranged _ lo [⟨opening.span.cover closing.span, ⟨opening.span.stop, closing.span.start⟩, text, inner⟩] _ :=
      arranged_body hordered opens closes rfl hlo
    exact hbody.append hfollowing (Nat.le_trans hlo hrange.le) hrest.le
  | @literal token rest multiline pieces found bodies kind inside following ihInside ihFollowing =>
    obtain ⟨levels, before, text, after, hstands⟩ := hstream.stands
    obtain ⟨front, back, hsplit⟩ := hjoined
    have hlies : Lies stream lo ([token] ++ rest) hi := hlies
    obtain ⟨hlo, hrange, hrest⟩ := hlies.within (spans_single token)
    have hmem := hrange.subset token List.mem_cons_self
    have hinside := ihInside hstream
      ⟨hstands.lined hmem kind, token, hmem, multiline, pieces, kind, fun _ hpiece => hpiece⟩ trivial
    have hfollowing := ihFollowing hstream hrest ⟨front ++ [token], back, by rw [hsplit]; simp⟩
    exact (hinside.mono hlo (Nat.le_refl _)).append hfollowing (Nat.le_trans hlo hrange.le) hrest.le
  | piece piece following ih =>
    obtain ⟨hlined, token, hmem, multiline, pieces, kind, hsubset⟩ := hlies
    cases hlined with
    | cons hafter hle hrest =>
      exact ih hstream ⟨hrest.mono (Nat.le_trans hafter hle) (Nat.le_refl _), token, hmem, multiline, pieces, kind,
        fun p hp => hsubset p (List.mem_cons_of_mem _ hp)⟩ trivial
  | @fragment range back span rest found bodies undone inside following ihInside ihFollowing =>
    obtain ⟨hlined, token, hmem, multiline, pieces, kind, hsubset⟩ := hlies
    cases hlined with
    | cons hafter hle hrest =>
      have hpiece := hsubset _ List.mem_cons_self
      obtain ⟨levels, before, text, after, hstands⟩ := hstream.stands
      obtain ⟨-, hlaid⟩ := hstands.fragmentOf hmem kind hpiece
      have hinside := ihInside (.fragment hstream hmem kind hpiece) (hlaid.lies_front undone) ⟨[], back, rfl⟩
      have hfollowing := ihFollowing hstream ⟨hrest, token, hmem, multiline, pieces, kind,
        fun p hp => hsubset p (List.mem_cons_of_mem _ hp)⟩ trivial
      have hinside := (hinside.outward (.fragment .here hmem kind hpiece)).mono hafter (Nat.le_refl _)
      exact hinside.append hfollowing (Nat.le_trans hafter hle) hrest.le

theorem FoundIn.inPlace {source : String} {tokens : List Token} {bodies : List MacroBody} (h : FoundIn tokens bodies)
    (hstream : Stream source tokens) : InPlace tokens bodies := by
  obtain ⟨range, back, rfl, hundone, hembedded⟩ := h
  obtain ⟨levels, before, text, after, hstands⟩ := hstream.stands
  exact (hembedded.arranged hstream (hstands.laid.lies_front hundone) ⟨[], back, rfl⟩).toInPlace

/-! ## Readings -/

/-- The notes of a reading are those of the bodies in its tree. -/
structure Noted (tokens : List Token) (notes : List Span) (bodies : List MacroBody) : Prop where
  /-- Each body is noted once, and they are noted in order. -/
  once : notes = bodies.map (·.inner)
  /-- The tokens of a document, or of a fragment in it, hold the bodies in their places. -/
  inPlace : ∀ source, Stream source tokens → InPlace tokens bodies

/-- A reading that ends without a fault has noted the macro bodies of its tree, each once and in order, however
often it has gone back; and they are apart from one another, each with the tokens between its braces. -/
theorem macroBodies_noted (setting : Setting) (tokens : List Token) :
    ((readItems setting tokens).faults = [] → Noted tokens (readItems setting tokens).macroBodies
      ((readItems setting tokens).value.flatMap Item.macroBodies)) ∧
    ((readExpr setting tokens).faults = [] → ∃ e, (readExpr setting tokens).value = some e ∧
      Noted tokens (readExpr setting tokens).macroBodies e.macroBodies) := by
  refine ⟨fun h => ?_, fun h => ?_⟩
  · obtain ⟨honce, hfound⟩ := readItems_notes h
    exact ⟨honce, fun source hstream => hfound.inPlace hstream⟩
  · obtain ⟨e, hvalue, honce, hfound⟩ := readExpr_notes h
    exact ⟨e, hvalue, honce, fun source hstream => hfound.inPlace hstream⟩

/-- A body in a block that is first tried as a record, one in an arm, and one in a fragment. -/
def triedItems : String :=
  "fn f() \x7b v := \x7b m!\x7b z \x7d \x7d match x \x7b 1 -> \x7b b!\x7b q \x7b r \x7d \x7d \x7d \x7d \"a $\x7b c!\x7b s \x7d \x7d\" \x7d"

/-- The same of an expression. -/
def triedExpr : String := "[\x7b m!\x7b z \x7d \x7d, \"$\x7bc!\x7b s \x7d\x7d\"]"

theorem macroBodies_noted_tried :
    ((readItems (.ofSource triedItems .standard) (lex triedItems).tokens).faults = [] ∧
      (readItems (.ofSource triedItems .standard) (lex triedItems).tokens).macroBodies = [⟨19, 22⟩, ⟨46, 55⟩, ⟨70, 73⟩] ∧
      Noted (lex triedItems).tokens (readItems (.ofSource triedItems .standard) (lex triedItems).tokens).macroBodies
        ((readItems (.ofSource triedItems .standard) (lex triedItems).tokens).value.flatMap Item.macroBodies)) ∧
    ((readExpr (.ofSource triedExpr .standard) (lex triedExpr).tokens).faults = [] ∧
      (readExpr (.ofSource triedExpr .standard) (lex triedExpr).tokens).macroBodies = [⟨6, 9⟩, ⟨20, 23⟩] ∧
      ∃ e, (readExpr (.ofSource triedExpr .standard) (lex triedExpr).tokens).value = some e ∧
        Noted (lex triedExpr).tokens (readExpr (.ofSource triedExpr .standard) (lex triedExpr).tokens).macroBodies
          e.macroBodies) := by
  have hitems : (readItems (.ofSource triedItems .standard) (lex triedItems).tokens).faults = [] :=
    List.isEmpty_iff.1 (by decide +kernel)
  have hexpr : (readExpr (.ofSource triedExpr .standard) (lex triedExpr).tokens).faults = [] :=
    List.isEmpty_iff.1 (by decide +kernel)
  refine ⟨⟨hitems, by decide +kernel, ?_⟩, ⟨hexpr, by decide +kernel, ?_⟩⟩
  · exact (macroBodies_noted _ _).1 hitems
  · exact (macroBodies_noted _ _).2 hexpr

end JuiceSyntax
