/-
  The order of lexical faults. A fault is about a stretch of text, and of two faults the one that is
  found first begins before the other (`Rising`): the fault of an open string comes before those of its
  body, and the faults of a fragment stand where the fragment does.

  `LexedFrom.faults_within`: what is reported within the place of a lexeme is what is found in reading it.
  `lex_first_faults`: a document reports the earliest of all its faults, at most twenty, and its tokens
  and comments are those of a reading without a limit.
-/
import Mathlib.Data.List.Sort
import JuiceSyntax.Proofs.Token.Streams

namespace JuiceSyntax

/-- Each fault begins before the next one. -/
def Rising (faults : List LexFault) : Prop := faults.Pairwise fun a b => a.span.start < b.span.start

namespace Rising

variable {faults faults' : List LexFault}

theorem nil : Rising [] := List.Pairwise.nil

theorem single (fault : LexFault) : Rising [fault] := List.pairwise_singleton _ _

/-- Faults of one stretch of text, and those of what follows it. -/
theorem append {lo mid hi : Nat} (h : Rising faults) (hwithin : AllBetween lo mid [] faults) (h' : Rising faults')
    (hwithin' : AllBetween mid hi [] faults') : Rising (faults ++ faults') := by
  unfold Rising
  rw [List.pairwise_append]
  refine ⟨h, h', ?_⟩
  intro fault hmem later hlater
  obtain ⟨-, hwide, hstop⟩ := hwithin.faults fault hmem
  obtain ⟨hstart, -, -⟩ := hwithin'.faults later hlater
  omega

/-- A fault, and those of what begins behind its start. -/
theorem cons {fault : LexFault} {lo hi : Nat} (hfault : fault.span.start < lo) (h : Rising faults)
    (hwithin : AllBetween lo hi [] faults) : Rising (fault :: faults) := by
  unfold Rising
  rw [List.pairwise_cons]
  refine ⟨?_, h⟩
  intro later hlater
  obtain ⟨hstart, -, -⟩ := hwithin.faults later hlater
  omega

end Rising

/-- Without the comments. -/
theorem AllBetween.onlyFaults {lo hi : Nat} {comments : List Comment} {faults : List LexFault}
    (h : AllBetween lo hi comments faults) : AllBetween lo hi [] faults where
  comments _ hmem := absurd hmem List.not_mem_nil
  faults := h.faults

/-- The faults of every fragment of a text rise, if fragments are lexed at all. -/
def FragmentsRising (fragment? : Option (Nat → List Char → Lexed)) : Prop :=
  ∀ lex, fragment? = some lex → ∀ offset text, Rising (lex offset text).faults

section

variable {fragment? : Option (Nat → List Char → Lexed)}

theorem readParts_rising (h : FragmentsRising fragment?) (hbetween : FragmentsBetween fragment?) (offset : Nat)
    {ps : List Part} (hopened : ∀ part ∈ ps, part.Opened) (hraw : ∀ part ∈ ps, part.raw ≠ []) :
    Rising (readParts fragment? offset ps).faults := by
  induction ps generalizing offset with
  | nil => exact .nil
  | cons part rest ih =>
    have hopened' : ∀ p ∈ rest, p.Opened := fun p hp => hopened p (List.mem_cons_of_mem _ hp)
    have hraw' : ∀ p ∈ rest, p.raw ≠ [] := fun p hp => hraw p (List.mem_cons_of_mem _ hp)
    have hrest := ih (offset + byteWidth part.raw) hopened' hraw'
    have hbehind := (readParts_between hbetween (offset + byteWidth part.raw) hopened' hraw').onlyFaults
    have hwide := length_le_byteWidth part.raw
    have hpos := List.length_pos_iff.2 (hraw part List.mem_cons_self)
    unfold readParts
    cases hkind : part.kind with
    | text => exact hrest
    | indent => exact hrest
    | escape value => exact hrest
    | badEscape value => exact hrest.cons (by dsimp only; omega) hbehind
    | fragment closed =>
      cases hlex : fragment? with
      | none =>
        subst hlex
        exact hrest.cons (by dsimp only; omega) hbehind
      | some lex =>
        subst hlex
        have hwidth := byteWidth_inner_add_le (hopened part List.mem_cons_self closed hkind)
        have hinner := (hbetween lex rfl (offset + 2) part.inner).onlyFaults
        have hinside : AllBetween offset (offset + byteWidth part.raw) [] (lex (offset + 2) part.inner).faults :=
          hinner.mono (by omega) (by omega)
        exact (h lex rfl (offset + 2) part.inner).append hinside hrest hbehind

theorem readString_rising (h : FragmentsRising fragment?) (hbetween : FragmentsBetween fragment?) (closed : Bool)
    (raw : List Char) (span : Span) : Rising (readString fragment? closed raw span).faults := by
  obtain ⟨multiline, lead, content, trail, -, -, heq⟩ := readString_eq closed raw
  have hopened := opened_cutParts multiline content.length multiline content
  have hraw := raw_ne_nil_cutParts multiline content.length multiline content
  have hbody := readParts_rising h hbetween (span.start + 1 + byteWidth lead) hopened hraw
  have hwithin := (readParts_between hbetween (span.start + 1 + byteWidth lead) hopened hraw).onlyFaults
  rw [heq]
  cases closed with
  | true => exact hbody
  | false => exact hbody.cons (by dsimp only; omega) hwithin

theorem readLexeme_rising (h : FragmentsRising fragment?) (hbetween : FragmentsBetween fragment?) (offset : Nat)
    {lexeme : Lexeme} (hapt : lexeme.Apt) : Rising (readLexeme fragment? offset lexeme).faults := by
  have hcause (cause? : Option LexCause) (span : Span) :
      Rising (cause?.map fun cause => (⟨cause, span⟩ : LexFault)).toList := by
    cases cause? with
    | none => exact .nil
    | some cause => exact .single _
  unfold readLexeme
  cases hkind : lexeme.kind with
  | blank => exact .nil
  | comment => exact .nil
  | stray =>
    obtain ⟨c, hraw, -⟩ := hapt.stray hkind
    dsimp only
    rw [hraw]
    exact .single _
  | string closed => exact readString_rising h hbetween closed _ _
  | integer radix => exact hcause _ _
  | decimal => exact hcause _ _
  | _ => exact .nil

theorem readLexemes_rising (h : FragmentsRising fragment?) (hbetween : FragmentsBetween fragment?) (offset : Nat)
    {ls : List Lexeme} (hapt : ∀ lexeme ∈ ls, lexeme.Apt) : Rising (readLexemes fragment? offset ls).faults := by
  induction ls generalizing offset with
  | nil => exact .nil
  | cons lexeme rest ih =>
    obtain ⟨hfirst, hrest⟩ := List.forall_mem_cons.1 hapt
    have hhere := (readLexeme_between hbetween offset hfirst.wide).onlyFaults
    have hbehind := (readLexemes_between hbetween (offset + byteWidth lexeme.raw) fun l hl => (hrest l hl).wide).onlyFaults
    rw [readLexemes, Lexed.faults_append]
    exact (readLexeme_rising h hbetween offset hfirst).append hhere (ih _ hrest) hbehind

end

/-! ## Texts -/

theorem capFaults_sublist (limit : Option Nat) (faults : List LexFault) : (capFaults limit faults).Sublist faults := by
  cases limit with
  | none => exact List.Sublist.refl _
  | some n => exact List.take_sublist n faults

theorem lexAt_rising (limit : Option Nat) (levels offset : Nat) (text : List Char) :
    Rising (lexAt limit levels offset text).faults := by
  induction levels generalizing offset text with
  | zero =>
    have hnone : FragmentsRising none := fun _ hlex => nomatch hlex
    have hrising := readLexemes_rising hnone (fragmentsAt_between limit 0) offset (apt_lexemes text)
    rw [lexAt_eq]
    exact List.Pairwise.sublist (capFaults_sublist limit _) hrising
  | succ levels ih =>
    have hfragments : FragmentsRising (fragmentsAt limit (levels + 1)) := by
      intro lex hlex
      obtain rfl := Option.some.inj hlex
      exact ih
    have hrising := readLexemes_rising hfragments (fragmentsAt_between limit (levels + 1)) offset (apt_lexemes text)
    rw [lexAt_eq]
    exact List.Pairwise.sublist (capFaults_sublist limit _) hrising

theorem fragmentsAt_rising (limit : Option Nat) (levels : Nat) : FragmentsRising (fragmentsAt limit levels) := by
  intro lex hlex offset text
  cases levels with
  | zero => cases hlex
  | succ levels =>
    obtain rfl := Option.some.inj hlex
    exact lexAt_rising limit levels offset text

/-- The faults of a document within the place of one lexeme of a stream are those of that lexeme. -/
theorem LexedFrom.faults_within {source : String} {levels : Nat} {before text after : List Char} {tokens : List Token}
    (h : LexedFrom source levels before text after tokens) {front back : List Lexeme} {lexeme : Lexeme} {span : Span}
    (hls : lexemes text = front ++ lexeme :: back) (hstart : span.start = byteWidth before + byteWidth (front.flatMap (·.raw)))
    (hstop : span.stop = span.start + byteWidth lexeme.raw) :
    (lexWithin none source).faults.filter (fun fault => span.holds fault.span) =
      (readLexeme (fragmentsAt none levels) span.start lexeme).faults := by
  have hirrefl : Std.Irrefl fun a b : LexFault => a.span.start < b.span.start := ⟨fun a => Nat.lt_irrefl _⟩
  have hantisymm : Std.Antisymm fun a b : LexFault => a.span.start < b.span.start :=
    ⟨fun a b hab hba => absurd hab (Nat.lt_asymm hba)⟩
  have hapt := apt_lexemes text lexeme (hls ▸ List.mem_append_right _ List.mem_cons_self)
  have hwhole := congrArg byteWidth (flatMap_raw_lexemes text)
  rw [hls, List.flatMap_append, List.flatMap_cons, byteWidth_append, byteWidth_append] at hwhole
  have hbetween := readLexeme_between (fragmentsAt_between none levels) span.start hapt.wide
  -- Both lists rise, so it is enough that they have the same faults.
  refine List.Pairwise.eq_of_mem_iff ((lexAt_rising none _ _ _).sublist List.filter_sublist)
    (readLexeme_rising (fragmentsAt_rising none levels) (fragmentsAt_between none levels) span.start hapt) ?_
  intro fault
  rw [List.mem_filter, Span.holds_iff]
  constructor
  · rintro ⟨hfault, hlo, hhi⟩
    have hhere := h.within fault hfault (by omega) (by omega)
    have hown := fault_of_lexeme hls hhere (by omega) (by omega)
    rwa [← hstart] at hown
  · intro hfault
    obtain ⟨hlo, -, hhi⟩ := hbetween.faults fault hfault
    refine ⟨h.faults fault ?_, hlo, by omega⟩
    rw [lexAt_none, hls, List.append_cons]
    refine faults_of_lexemes fault ?_
    rw [readLexemes, Lexed.faults_append, ← hstart]
    exact List.mem_append_left _ hfault

/-- A document reports the first of the faults that it would without a limit, in the order of their places.
Neither its tokens nor its comments depend on the limit. -/
theorem lex_first_faults (source : String) :
    (lex source).faults.Pairwise (fun a b => a.span.start < b.span.start) ∧
      (lexWithin none source).faults.Pairwise (fun a b => a.span.start < b.span.start) ∧
      (lex source).faults = (lexWithin none source).faults.take (min 20 (lexWithin none source).faults.length) ∧
      ∀ limit, (lexWithin limit source).tokens = (lex source).tokens ∧
        (lexWithin limit source).comments = (lex source).comments := by
  obtain ⟨htokens, hcomments, -⟩ := lexWithin_capped faultLimit source
  have hfaults : (lex source).faults = (lexWithin none source).faults.take 20 := faults_lexWithin faultLimit source
  refine ⟨lexAt_rising (some faultLimit) _ _ _, lexAt_rising none _ _ _, ?_, ?_⟩
  · rw [hfaults]
    exact List.take_eq_take_min
  · intro limit
    cases limit with
    | none => exact ⟨htokens.symm, hcomments.symm⟩
    | some n =>
      obtain ⟨htokens', hcomments', -⟩ := lexWithin_capped n source
      exact ⟨htokens'.trans htokens.symm, hcomments'.trans hcomments.symm⟩

end JuiceSyntax
