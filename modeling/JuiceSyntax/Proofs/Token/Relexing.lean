/-
  Slices of a document. A lexeme does not depend on the text around it as long as it is cut off
  between two lexemes, and no offset depends on anything but the place of the text.

  `lex_slice`: the text from the start of one token to the end of another of the same stream is
  lexed to just the tokens from the one to the other, moved to its start.
-/
import JuiceSyntax.Proofs.Token.Cutting
import JuiceSyntax.Proofs.Token.Streams

namespace JuiceSyntax

/-- Tokens that follow one another are read from lexemes that do. -/
theorem exists_lexemes_of_tokens {fragment? : Option (Nat → List Char → Lexed)} {offset : Nat} {ls : List Lexeme}
    {pre chosen post : List Token} {first last : Token}
    (h : (readLexemes fragment? offset ls).tokens = pre ++ chosen ++ post) (hfirst : chosen.head? = some first)
    (hlast : chosen.getLast? = some last) (hmid : last.kind.isDone = false) :
    ∃ front lexeme middle back, ls = front ++ lexeme :: middle ++ back ∧ lexeme.kind.addsToken = true ∧
      first.span.start = offset + byteWidth (front.flatMap (·.raw)) ∧
      last.span.stop = first.span.start + byteWidth ((lexeme :: middle).flatMap (·.raw)) ∧
      (readLexemes fragment? first.span.start (lexeme :: middle)).tokens = chosen ++ [⟨.done, .point last.span.stop⟩] := by
  obtain ⟨init, rfl⟩ : ∃ init, chosen = init ++ [last] := List.getLast?_eq_some_iff.1 hlast
  -- The last of all tokens is the end, and it is not among the chosen ones.
  obtain ⟨post, rfl⟩ : ∃ post', post = post' ++ [⟨.done, .point (offset + byteWidth (ls.flatMap (·.raw)))⟩] := by
    rw [readLexemes_tokens] at h
    obtain rfl | ⟨post', token, rfl⟩ := List.eq_nil_or_concat' post
    · rw [List.append_nil, ← List.append_assoc] at h
      have hend := (List.append_inj' h rfl).2
      rw [← (List.cons.inj hend).1] at hmid
      cases hmid
    · rw [← List.append_assoc] at h
      exact ⟨post', by rw [(List.append_inj' h rfl).2]⟩
  rw [readLexemes_tokens, ← List.append_assoc] at h
  have hall := (List.append_inj' h rfl).1
  have hf := length_tokens_stretch fragment?
  obtain ⟨others, hothers⟩ := List.head?_eq_some_iff.1 hfirst
  rw [hothers, List.append_assoc, List.cons_append] at hall
  obtain ⟨ss, s, ss', hstretches, hpre, hs, hrest⟩ := exists_of_flatMap_eq hf hall
  have hchosen : (s :: ss').flatMap (fun s => (s.lexed fragment?).tokens) = init ++ last :: post := by
    rw [List.flatMap_cons, hs, hrest, List.singleton_append, ← List.cons_append, ← hothers, List.append_assoc,
      List.singleton_append]
  obtain ⟨ts, t, ts', hsplit, hinit, ht, -⟩ := exists_of_flatMap_eq hf hchosen
  obtain ⟨front, others', rfl, -, hothers'⟩ := exists_of_stretches_eq hstretches
  have hmiddle := hothers'.symm
  rw [hsplit, List.append_cons] at hmiddle
  obtain ⟨middle, back, rfl, hts, -⟩ := exists_of_stretches_eq hmiddle
  obtain ⟨a, b, -, hb, hread⟩ := readFrom_of_stretch hts.symm ht
  obtain rfl : b = [] := by
    cases b with
    | nil => rfl
    | cons => cases hb
  cases middle with
  | nil => exact absurd hts (List.append_ne_nil_of_right_ne_nil _ (List.cons_ne_nil _ _))
  | cons lexeme middle =>
    obtain ⟨a', _, ha', -, hread'⟩ := @readFrom_of_stretch _ _ _ [] _ _ _ hothers'.symm hs
    obtain rfl : a' = [] := by
      cases a' with
      | nil => rfl
      | cons => cases ha'
    have hstart : first.span.start = offset + byteWidth (front.flatMap (·.raw)) := hread'.start
    have hadds : lexeme.kind.addsToken = true := by
      rw [(List.cons.inj hread'.lexemes_eq).1]
      exact hread'.adds
    have hstop : last.span.stop = first.span.start + byteWidth ((lexeme :: middle).flatMap (·.raw)) := by
      rw [hread.stop, hread.lexemes_eq, List.flatMap_append, List.flatMap_singleton, byteWidth_append, hstart, Nat.add_assoc]
    refine ⟨front, lexeme, middle, back, by rw [List.append_assoc], hadds, hstart, hstop, ?_⟩
    rw [readLexemes_tokens, hstart, ← hts, List.flatMap_append, hinit, List.flatMap_singleton, ht, hstop, hstart]

/-- A text that begins with a token begins with no `#!` line. -/
theorem shebangLine_of_addsToken {c : Char} {rest : List Char} (h : (firstLexeme c rest).kind.addsToken = true)
    (more : List Char) : shebangLine (c :: more) = [] := by
  have hhash : c ≠ '#' := by
    rintro rfl
    have hstray : (firstLexeme '#' rest).kind = .stray := rfl
    rw [hstray] at h
    cases h
  have hprefix : ¬['#', '!'].isPrefixOf (c :: more) = true := by
    simp only [List.isPrefixOf, Bool.and_eq_true, beq_iff_eq]
    exact fun hc => hhash hc.1.symm
  rw [shebangLine, if_neg hprefix]

theorem allShallow_moved {faults : List LexFault} {f : Nat → Nat} : AllShallow (faults.map (·.moved f)) ↔ AllShallow faults :=
  List.forall_mem_map

/-- A text of a document that begins with a token is lexed alike on its own. -/
theorem lex_ofList {levels n : Nat} {text : List Char} (hlevels : levels ≤ fragmentLimit)
    (hline : shebangLine text = []) (hshallow : AllShallow (lexAt none levels n text).faults) :
    (lex (String.ofList text)).tokens = movedTokens (· - n) (lexAt none levels n text).tokens := by
  have hmoved := lexAt_moved none levels n 0 text
  rw [Nat.add_zero] at hmoved
  have hshallow' : AllShallow (lexAt none levels 0 text).faults := by
    rw [hmoved] at hshallow
    exact allShallow_moved.1 hshallow
  calc (lex (String.ofList text)).tokens
      = (lexWithin none (String.ofList text)).tokens := (lexWithin_capped faultLimit _).1
    _ = (lexAt none fragmentLimit 0 text).tokens := by
      rw [lexWithin, String.toList_ofList, hline]
      rfl
    _ = (lexAt none levels 0 text).tokens := by
      rw [lexAt_of_shallow hshallow' (Nat.le_trans (fragmentDepth_lexAt _ _ _) hlevels)]
    _ = movedTokens (· - n) (lexAt none levels n text).tokens := by
      rw [hmoved]
      exact (movedTokens_movedTokens (fun k => Nat.add_sub_cancel_left n k) _).symm

/-- A slice of a document from the start of one token to the end of another of the same stream,
that of the whole document or of any fragment, is lexed to the tokens from the one to the other,
moved to the start of the slice, and the end. -/
theorem lex_slice {source : String} {stream : List Token} (hstream : Stream source stream) {i j : Nat} {first last : Token}
    (hfirst : stream[i]? = some first) (hlast : stream[j]? = some last) (hle : i ≤ j) (hmid : last.kind.isDone = false)
    (hshallow : AllShallow (lexWithin none source).faults) :
    ∃ text, slice? source.toList ⟨first.span.start, last.span.stop⟩ = some text ∧
      (lex (String.ofList text)).tokens =
        movedTokens (· - first.span.start) ((stream.take (j + 1)).drop i) ++
          [⟨.done, .point (last.span.stop - first.span.start)⟩] := by
  obtain ⟨levels, before, text, after, hlexed⟩ := hstream.stands
  have hsplit : stream = stream.take i ++ (stream.take (j + 1)).drop i ++ stream.drop (j + 1) := by
    have hfront := List.take_append_drop i (stream.take (j + 1))
    rw [List.take_take, Nat.min_eq_left (Nat.le_succ_of_le hle)] at hfront
    rw [hfront, List.take_append_drop]
  have hhead : ((stream.take (j + 1)).drop i).head? = some first := by
    rw [List.head?_drop, List.getElem?_take_of_lt (Nat.lt_succ_of_le hle), hfirst]
  have hend : ((stream.take (j + 1)).drop i).getLast? = some last := by
    have hj : j < stream.length := (List.getElem?_eq_some_iff.1 hlast).1
    rw [List.getLast?_drop, if_neg (by rw [List.length_take]; omega), List.getLast?_take, if_neg (Nat.succ_ne_zero j),
      Nat.add_sub_cancel, hlast, Option.some_or]
  have htokens := hlexed.tokens_eq.symm
  rw [lexAt_none, hsplit] at htokens
  obtain ⟨front, lexeme, middle, back, hls, hadds, hstart, hstop, hchosen⟩ :=
    exists_lexemes_of_tokens htokens hhead hend hmid
  -- The slice is the text of the lexemes that the chosen tokens are read from.
  have htext : source.toList =
      (before ++ front.flatMap (·.raw)) ++ (lexeme :: middle).flatMap (·.raw) ++ (back.flatMap (·.raw) ++ after) := by
    have htext := flatMap_raw_lexemes text
    rw [hls, List.flatMap_append, List.flatMap_append] at htext
    rw [hlexed.source_eq, ← htext]
    simp only [List.append_assoc]
  rw [← byteWidth_append] at hstart
  refine ⟨(lexeme :: middle).flatMap (·.raw), ?_, ?_⟩
  · rw [htext, hstop, hstart]
    exact slice?_middle _ _ _
  have hown : lexAt none levels first.span.start ((lexeme :: middle).flatMap (·.raw)) =
      readLexemes (fragmentsAt none levels) first.span.start (lexeme :: middle) := by
    rw [lexAt_none, lexemes_middle hls]
  have hline : shebangLine ((lexeme :: middle).flatMap (·.raw)) = [] := by
    obtain ⟨c, raw, left, -, hchars, hfirst, -⟩ := exists_of_lexemes (lexemes_middle hls)
    rw [hchars]
    exact shebangLine_of_addsToken (hfirst ▸ hadds) _
  have hslice : AllShallow (lexAt none levels first.span.start ((lexeme :: middle).flatMap (·.raw))).faults := by
    intro fault hmem
    refine hshallow fault (hlexed.faults fault ?_)
    rw [hown, hstart, byteWidth_append] at hmem
    rw [lexAt_none, hls]
    exact faults_of_lexemes fault hmem
  rw [lex_ofList hlexed.levels_le hline hslice, hown, hchosen, movedTokens_append]
  rfl

/-- The call in the fragment, cut off before the range that it begins. -/
theorem lex_slice_call :
    ∃ stream first last, Stream "x := \"a$\x7b f(1, \"é\")..y \x7d\"" stream ∧ stream[0]? = some first ∧ stream[5]? = some last ∧
      last.kind.isDone = false ∧ AllShallow (lexWithin none "x := \"a$\x7b f(1, \"é\")..y \x7d\"").faults ∧
      ∃ text, slice? "x := \"a$\x7b f(1, \"é\")..y \x7d\"".toList ⟨first.span.start, last.span.stop⟩ = some text ∧
        (lex (String.ofList text)).tokens =
          movedTokens (· - first.span.start) ((stream.take 6).drop 0) ++
            [⟨.done, .point (last.span.stop - first.span.start)⟩] := by
  obtain ⟨pieces, span, inner, first, last, place, hliteral, hpiece, hfirst, hlast, hmid⟩ :
      ∃ pieces span inner first last place,
        (lex "x := \"a$\x7b f(1, \"é\")..y \x7d\"").tokens[2]? = some ⟨.str false pieces, span⟩ ∧
          pieces[1]? = some (.fragment inner place) ∧ inner[0]? = some first ∧ inner[5]? = some last ∧
          last.kind.isDone = false :=
    ⟨_, _, _, _, _, _, rfl, rfl, rfl, rfl, rfl⟩
  have hstream : Stream "x := \"a$\x7b f(1, \"é\")..y \x7d\"" inner :=
    .fragment .whole (List.mem_of_getElem? hliteral) rfl (List.mem_of_getElem? hpiece)
  have hshallow : AllShallow (lexWithin none "x := \"a$\x7b f(1, \"é\")..y \x7d\"").faults := by decide +kernel
  exact ⟨inner, first, last, hstream, hfirst, hlast, hmid, hshallow,
    lex_slice hstream hfirst hlast (by decide) hmid hshallow⟩

end JuiceSyntax
