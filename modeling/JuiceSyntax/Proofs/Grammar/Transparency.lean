/-
  Interpolation is transparent: an expression that is read without a fault is read alike as the only
  fragment of a string (`read_quotedFragment`).

  The fragment has a line break behind the expression, so its tokens end elsewhere than those of the
  expression alone, and they stand three bytes later in the string. So the reading is moved twice,
  from the text with a line break to the text without (`moves_beforeNewline`) and to the string
  (`moves_quotedFragment`). That the string ends where it should is not known from the text but from
  the reading, by which the braces match (`ReadsCleanly.closes`).
-/
import JuiceSyntax.Proofs.Grammar.DepthLimit
import JuiceSyntax.Proofs.Grammar.Pairing
import JuiceSyntax.Proofs.Grammar.Relocation
import JuiceSyntax.Proofs.Source.Slices
import JuiceSyntax.Proofs.Token.Wrapping

namespace JuiceSyntax

open Reader Grammar

namespace Grammar

/-! ## The string -/

section

variable {L : Level} {tokens : List Token} {e : Expr} {s t : State}

/-- An expression that takes all of a fragment. -/
theorem fragment_of_read (span : Span) (hmid : tokens.all (·.kind.isDone) = false)
    (hread : L.expr .value { s with cursor := .ofTokens tokens } = .ok e t) (hend : t.cursor.atEnd = true) :
    fragment tokens span L s = .ok e { t with cursor := s.cursor } := by
  have hexpr : Reader.expr .value L { s with cursor := .ofTokens tokens } = .ok e t := hread
  have hat : Reader.atEnd L t = .ok true t := by
    rw [← hend]
    rfl
  have hrest : (do
      unless ← atEnd do
        failAdvised .fragmentEnd .oneExpressionInFragment
      return e : Reader Expr) L t = .ok e t := by
    rw [bind_apply, hat]
    rfl
  rw [fragment, if_neg (by rw [hmid]; decide)]
  show withTokens _ _ L s = _
  rw [withTokens_apply, bind_apply, hexpr, Ending.andThen_ok, hrest]
  rfl

/-- A string and the end of the tokens. -/
theorem chain_string {multiline : Bool} {pieces : List Piece} {parts : List Segment} (place stop : Span)
    (hsegments : segments pieces L { State.ofTokens [] with cursor := ⟨1, some place, [⟨.done, stop⟩], 1, rfl⟩ } =
      .ok parts { t with cursor := ⟨1, some place, [⟨.done, stop⟩], 1, rfl⟩ }) :
    chain 1 .value L (.ofTokens [⟨.str multiline pieces, place⟩, ⟨.done, stop⟩]) =
      .ok ⟨.str parts (if multiline then .lines (indentSpans pieces) else .inline), place⟩
        { t with cursor := ⟨1, some place, [⟨.done, stop⟩], 1, rfl⟩ } := by
  have hliteral : primary .value L (.ofTokens [⟨.str multiline pieces, place⟩, ⟨.done, stop⟩]) =
      .ok ⟨.str parts (if multiline then .lines (indentSpans pieces) else .inline), place⟩
        { t with cursor := ⟨1, some place, [⟨.done, stop⟩], 1, rfl⟩ } := by
    show stringLiteral multiline pieces L _ = _
    rw [stringLiteral, bind_apply, advance_apply, Ending.andThen_ok, bind_apply]
    exact congrArg (Ending.andThen · _) hsegments
  have hpostfix : unaryExpr .value L (.ofTokens [⟨.str multiline pieces, place⟩, ⟨.done, stop⟩]) =
      .ok ⟨.str parts (if multiline then .lines (indentSpans pieces) else .inline), place⟩
        { t with cursor := ⟨1, some place, [⟨.done, stop⟩], 1, rfl⟩ } := by
    show postfixExpr .value L _ = _
    rw [postfixExpr, bind_apply, hliteral]
    rfl
  rw [chain, bind_apply, hpostfix]
  rfl

/-- A string of one fragment and the end of the tokens. -/
theorem chain_quoted (span place stop : Span) (hmid : tokens.all (·.kind.isDone) = false)
    (hread : L.expr .value (.ofTokens tokens) = .ok e t) (hend : t.cursor.atEnd = true) :
    chain 1 .value L (.ofTokens [⟨.str false [.fragment tokens span], place⟩, ⟨.done, stop⟩]) =
      .ok ⟨.str [.fragment e span] .inline, place⟩ { t with cursor := ⟨1, some place, [⟨.done, stop⟩], 1, rfl⟩ } := by
  have hfragment := fragment_of_read span
    (s := { State.ofTokens tokens with cursor := ⟨1, some place, [⟨.done, stop⟩], 1, rfl⟩ }) hmid hread hend
  refine chain_string place stop ?_
  rw [segments, bind_apply]
  exact congrArg (Ending.andThen · _) hfragment

end

end Grammar

/-! ## Whole expressions -/

section

variable {setting : Setting} {tokens : List Token} {e : Expr} {t : State}

theorem readExpr_of_read (hread : (level setting setting.options.maxDepth).expr .value (.ofTokens tokens) = .ok e t)
    (hend : t.cursor.atEnd = true) : readExpr setting tokens = ⟨some e, t.faults, t.macroBodies⟩ := by
  simp only [readExpr, Reader.run, wholeExpr_apply, hread, hend, if_true]

/-- An expression is read from all of the tokens. -/
theorem exists_of_readExpr (h : (readExpr setting tokens).value = some e) :
    ∃ t, (level setting setting.options.maxDepth).expr .value (.ofTokens tokens) = .ok e t ∧ t.cursor.atEnd = true := by
  simp only [readExpr, Reader.run, wholeExpr_apply] at h
  cases hread : (level setting setting.options.maxDepth).expr .value (.ofTokens tokens) with
  | error fault t =>
    rw [hread] at h
    cases h
  | ok e' t =>
    rw [hread] at h
    dsimp only at h
    cases hend : t.cursor.atEnd with
    | true =>
      rw [hend] at h
      obtain rfl := Option.some.inj h
      exact ⟨t, rfl, hend⟩
    | false =>
      rw [hend] at h
      cases h

end

/-! ## Documents -/

/-- One expression as a document of its own, with this limit of depth. -/
def ExprDocument.readTo (source : String) (depth : Nat) : ExprDocument :=
  let lexed := lex source
  let reading := readExpr (.ofSource source (Options.standard.withMaxDepth depth)) lexed.tokens
  ⟨reading.value, outsideBodies reading.macroBodies lexed.faults, reading.faults⟩

theorem ExprDocument.readTo_standard (source : String) :
    ExprDocument.readTo source Options.standard.maxDepth = ExprDocument.read source := rfl

/-- An expression is read from the tokens without a fault, with nothing left of them. -/
structure ReadsCleanly (setting : Setting) (n : Nat) (tokens : List Token) (e : Expr) (t : State) : Prop where
  read : (level setting n).expr .value (.ofTokens tokens) = .ok e t
  clear : t.Clear
  atEnd : t.cursor.atEnd = true

namespace ReadsCleanly

variable {setting : Setting} {n : Nat} {tokens : List Token} {e : Expr} {t : State}

theorem of_readExpr (hstrict : setting.options.strict = false) (hvalue : (readExpr setting tokens).value = some e)
    (hfaults : (readExpr setting tokens).faults = []) :
    ∃ t, ReadsCleanly setting setting.options.maxDepth tokens e t := by
  obtain ⟨t, hread, hend⟩ := exists_of_readExpr hvalue
  rw [readExpr_of_read hread hend] at hfaults
  have hfaults : t.faults = [] := hfaults
  refine ⟨t, hread, ⟨hfaults, ?_⟩, hend⟩
  cases hhalted : t.halted with
  | false => rfl
  | true =>
    have hlast := ((level_goesToFatal setting hstrict setting.options.maxDepth).expr .value (.ofTokens tokens) trivial).2
    rw [hread] at hlast
    obtain ⟨fault, hmem, -⟩ := hlast.exists_of_halted rfl hhalted
    have hmem : fault ∈ t.faults := hmem
    rw [hfaults] at hmem
    exact absurd hmem List.not_mem_nil

theorem readExpr (h : ReadsCleanly setting setting.options.maxDepth tokens e t) :
    JuiceSyntax.readExpr setting tokens = ⟨some e, [], t.macroBodies⟩ := by
  rw [readExpr_of_read h.read h.atEnd, h.clear.faults]

/-- With a higher limit of depth the expression is read alike. -/
theorem deeper {source : String} {options : Options} {d d' n' : Nat} (hstrict : options.strict = false)
    (h : ReadsCleanly (.ofSource source (options.withMaxDepth d)) n tokens e t) (hle : n ≤ n') :
    ReadsCleanly (.ofSource source (options.withMaxDepth d')) n' tokens e t := by
  have hsinking : (level (.ofSource source (options.withMaxDepth d)) n).Partly (sinking d) GoesToFatal
      (level (.ofSource source (options.withMaxDepth d')) n') := level_sinking source hstrict hle
  obtain heq | hsunk | ⟨hhalted, -⟩ := hsinking.expr .value (.ofTokens tokens)
  · exact ⟨heq.symm.trans h.read, h.clear, h.atEnd⟩
  · rw [h.read] at hsunk
    cases hsunk with
    | stopped hstopped => exact absurd (hstopped.1.symm.trans h.clear.halted) (by decide)
  · rw [h.read] at hhalted
    exact absurd (hhalted.symm.trans h.clear.halted) (by decide)

variable {lo hi : Nat}

/-- Braces match in tokens from which an expression is read without a fault. -/
theorem closes (h : ReadsCleanly setting n tokens e t) (hlaid : Laid lo tokens hi) : Closes 0 tokens := by
  have hpairs : Pairs (level setting n) (fun _ => True) 0 (Reader.expr .value) := (level_pairs setting n).expr .value
  obtain ⟨hrest, front, htokens, hcloses⟩ := hpairs.closes trivial hlaid h.read h.clear
  have htokens : tokens = front ++ t.cursor.rest := htokens
  have hend := h.atEnd
  have hlast : Closes 0 t.cursor.rest := by
    cases hcursor : t.cursor.rest with
    | nil => exact absurd hcursor hrest.ne_nil
    | cons token rest =>
      rw [Cursor.atEnd, Cursor.kind_of_rest hcursor] at hend
      rw [hcursor] at hrest
      cases hrest with
      | done after before => exact .singleton rfl rfl
      | cons mid after wide inner following => exact absurd (hend.symm.trans mid) (by decide)
  rw [htokens]
  exact hcloses.append hlast

/-- No expression is read from the end of the tokens alone. -/
theorem mid (h : ReadsCleanly setting n tokens e t) (hlaid : Laid lo tokens hi) : tokens.all (·.kind.isDone) = false := by
  cases hlaid with
  | done after before =>
    have hread := h.read
    cases n <;> cases hread
  | cons mid after wide inner following => simp [mid]

theorem carries {m : Move} {setting' : Setting} (hmoves : Level.Moves m (level setting n) (level setting' n))
    (hholds : m.Holds tokens) :
    Carries m (Expr.moved m.offset) ((level setting n).expr .value (.ofTokens tokens))
      ((level setting' n).expr .value (.ofTokens (movedTokens m.offset tokens))) := by
  rw [← State.moved_ofTokens]
  exact hmoves.expr .value _ (m.fits_ofTokens hholds)

/-- In another place the same expression is read. -/
theorem moved {m : Move} {setting' : Setting} (h : ReadsCleanly setting n tokens e t)
    (hmoves : Level.Moves m (level setting n) (level setting' n)) (hholds : m.Holds tokens) :
    ReadsCleanly setting' n (movedTokens m.offset tokens) (e.moved m.offset) (t.moved m) := by
  have hread := (carries hmoves hholds).eq
  rw [h.read] at hread
  refine ⟨hread, ⟨?_, h.clear.halted⟩, (Cursor.atEnd_moved m.offset t.cursor).trans h.atEnd⟩
  rw [State.moved, h.clear.faults]
  rfl

/-- What is read from tokens in another place is read from them in their own. -/
theorem exists_of_moved {m : Move} {setting' : Setting} (hmoves : Level.Moves m (level setting n) (level setting' n))
    (hholds : m.Holds tokens) (h : ReadsCleanly setting' n (movedTokens m.offset tokens) e t) :
    ∃ e' t', ReadsCleanly setting n tokens e' t' ∧ e = e'.moved m.offset := by
  have hread := (carries hmoves hholds).eq
  rw [h.read] at hread
  cases hending : (level setting n).expr .value (.ofTokens tokens) with
  | error fault t' =>
    rw [hending] at hread
    cases hread
  | ok e' t' =>
    rw [hending] at hread
    obtain ⟨rfl, rfl⟩ := EStateM.Result.ok.inj hread
    refine ⟨e', t', ⟨hending, ⟨List.map_eq_nil_iff.1 h.clear.faults, h.clear.halted⟩, ?_⟩, rfl⟩
    exact (Cursor.atEnd_moved m.offset t'.cursor).symm.trans h.atEnd

end ReadsCleanly

/-! ## A document in a string -/

/-- The end of a text, moved before the line break behind it. -/
def beforeNewline (width limit : Nat) : Move where
  offset := (min · width)
  monotone h := by omega
  begins n := n < width ∨ n = width + 1
  injective ha hb heq := by omega
  limit := limit
  stop := width + 1

/-- A text of this width, moved behind others. -/
def behind (before width limit : Nat) : Move where
  offset := (before + ·)
  monotone h := Nat.add_le_add_left h before
  begins _ := True
  injective _ _ heq := Nat.add_left_cancel heq
  limit := limit
  stop := width

theorem moves_beforeNewline (source : String) (options : Options) (n limit : Nat) :
    Level.Moves (beforeNewline (byteWidth source.toList) limit) (level (.ofSource (source ++ "\n") options) n)
      (level (.ofSource source (options.withMaxDepth limit)) n) := by
  have htext : (source ++ "\n").toList = source.toList ++ ['\n'] := String.toList_append ..
  apply level_moves
  case hsource =>
    intro span hbegins hstop
    have hstop : span.stop < byteWidth source.toList := hbegins.resolve_right (Nat.ne_of_lt hstop)
    show slice? source.toList _ = slice? (source ++ "\n").toList span
    rw [htext]
    exact slice?_min ['\n'] hstop
  case hoptions => rfl
  case hremember => rfl

theorem moves_quotedFragment (source : String) (options : Options) (n limit : Nat) :
    Level.Moves (behind 3 (byteWidth source.toList + 1) limit) (level (.ofSource (source ++ "\n") options) n)
      (level (.ofSource (quotedFragment source) (options.withMaxDepth limit)) n) := by
  have htext : (source ++ "\n").toList = source.toList ++ ['\n'] := String.toList_append ..
  have hwidth : byteWidth (source ++ "\n").toList = byteWidth source.toList + 1 := by
    rw [htext]
    exact byteWidth_append _ _
  have hquoted : (quotedFragment source).toList = ['"', '$', '{'] ++ ((source ++ "\n").toList ++ ['}', '"']) := by
    rw [toList_quotedFragment]
    simp [braced]
  apply level_moves
  case hsource =>
    intro span _ hstop
    have hstop : span.stop ≤ byteWidth (source ++ "\n").toList := by
      rw [hwidth]
      exact Nat.le_of_lt hstop
    show slice? (quotedFragment source).toList _ = slice? (source ++ "\n").toList span
    rw [hquoted, ← slice?_append ['}', '"'] hstop]
    exact slice?_behind ['"', '$', '{'] _ span
  case hoptions => rfl
  case hremember => rfl

/-- Interpolation is transparent. An expression without lexical faults, which is read without a fault
and leaves room for one more level of nesting and one more of fragments, is read alike as the only
fragment of a string. -/
theorem read_quotedFragment {source : String} (hline : ¬['#', '!'] <+: source.toList) (hfaults : (lex source).faults = [])
    (hclean : (ExprDocument.readTo source 255).isClean = true) (hdepth : fragmentDepth (lex source).tokens ≤ 63) :
    (ExprDocument.read (quotedFragment source)).isClean = true ∧ ∃ outer inner span place,
      (ExprDocument.read source).expr = some outer ∧
        (ExprDocument.read (quotedFragment source)).expr = some ⟨.str [.fragment inner span] .inline, place⟩ ∧
        inner.sexpr = outer.sexpr := by
  have hlaid := laid_newline hline
  have hreal : movedTokens (beforeNewline (byteWidth source.toList) 255).offset (lex (source ++ "\n")).tokens =
      (lex source).tokens := moved_newline hline hfaults
  have hisolated : (beforeNewline (byteWidth source.toList) 255).Holds (lex (source ++ "\n")).tokens :=
    ⟨⟨0, hlaid⟩, startOf_newline hline hfaults⟩
  have hinside : (behind 3 (byteWidth source.toList + 1) 256).Holds (lex (source ++ "\n")).tokens :=
    ⟨⟨0, hlaid⟩, fun _ _ => trivial⟩
  -- The expression as it is read alone, with a line break behind it, and in the string.
  obtain ⟨e, t, hreads⟩ : ∃ e t, ReadsCleanly (.ofSource source (Options.standard.withMaxDepth 255)) 255 (lex source).tokens e t := by
    rw [ExprDocument.isClean, Bool.and_eq_true, Bool.and_eq_true] at hclean
    obtain ⟨e, hvalue⟩ := Option.isSome_iff_exists.1 hclean.1.1
    exact ⟨e, ReadsCleanly.of_readExpr rfl hvalue (List.isEmpty_iff.1 hclean.2)⟩
  obtain ⟨e', t', hreads', rfl⟩ := ReadsCleanly.exists_of_moved (moves_beforeNewline source .standard 255 255) hisolated
    (hreal.symm ▸ hreads)
  have hmoved := hreads'.moved (moves_quotedFragment source .standard 255 256) hinside
  have hdeeper : ReadsCleanly (.ofSource source (Options.standard.withMaxDepth 256)) 256 (lex source).tokens _ _ :=
    hreads.deeper rfl (by decide)
  obtain ⟨lo, hi, hsource⟩ := lex_laid source
  obtain ⟨span, place, hquoted, hnone⟩ := lex_quotedFragment hline hfaults (Nat.lt_succ_of_le hdepth) (hreads.closes hsource)
  have hmid : (movedTokens (3 + ·) (lex (source ++ "\n")).tokens).all (·.kind.isDone) = false := by
    rw [movedTokens_eq_map, List.all_map, ← hreads'.mid hlaid]
    exact congrArg _ (funext fun token => token.kind.isDone_moved _)
  have hstring := chain_quoted span place (.point place.stop) hmid hmoved.read hmoved.atEnd
  rw [← hquoted] at hstring
  have hread : readExpr (.ofSource (quotedFragment source) .standard) (lex (quotedFragment source)).tokens = _ :=
    readExpr_of_read hstring rfl
  have hdocument : ExprDocument.read (quotedFragment source) =
      ⟨some ⟨.str [.fragment (e'.moved (3 + ·)) span] .inline, place⟩, [], []⟩ := by
    rw [ExprDocument.read, hread, hnone]
    exact congrArg (ExprDocument.mk _ []) hmoved.clear.faults
  have hexpr : (ExprDocument.read source).expr = some (e'.moved (min · (byteWidth source.toList))) := by
    rw [← ExprDocument.readTo_standard]
    exact congrArg Reading.value hdeeper.readExpr
  rw [hdocument]
  refine ⟨rfl, _, _, span, place, hexpr, rfl, ?_⟩
  rw [Expr.sexpr_moved, Expr.sexpr_moved]

/-- A string, a comment with a brace and a macro body in the expression. -/
theorem read_quotedFragment_call :
    ¬['#', '!'] <+: "f(\"a$\x7bx\x7d\", m!\x7b \"\x7d\" \x7d) // \x7d\"".toList ∧
      (lex "f(\"a$\x7bx\x7d\", m!\x7b \"\x7d\" \x7d) // \x7d\"").faults = [] ∧
      (ExprDocument.readTo "f(\"a$\x7bx\x7d\", m!\x7b \"\x7d\" \x7d) // \x7d\"" 255).isClean = true ∧
      fragmentDepth (lex "f(\"a$\x7bx\x7d\", m!\x7b \"\x7d\" \x7d) // \x7d\"").tokens ≤ 63 ∧
      (ExprDocument.read (quotedFragment "f(\"a$\x7bx\x7d\", m!\x7b \"\x7d\" \x7d) // \x7d\"")).isClean = true ∧
      ∃ outer inner span place,
        (ExprDocument.read "f(\"a$\x7bx\x7d\", m!\x7b \"\x7d\" \x7d) // \x7d\"").expr = some outer ∧
          (ExprDocument.read (quotedFragment "f(\"a$\x7bx\x7d\", m!\x7b \"\x7d\" \x7d) // \x7d\"")).expr =
            some ⟨.str [.fragment inner span] .inline, place⟩ ∧
          inner.sexpr = outer.sexpr := by
  have hline : ¬['#', '!'] <+: "f(\"a$\x7bx\x7d\", m!\x7b \"\x7d\" \x7d) // \x7d\"".toList := by decide +kernel
  have hfaults : (lex "f(\"a$\x7bx\x7d\", m!\x7b \"\x7d\" \x7d) // \x7d\"").faults = [] :=
    List.isEmpty_iff.1 (by decide +kernel)
  have hclean : (ExprDocument.readTo "f(\"a$\x7bx\x7d\", m!\x7b \"\x7d\" \x7d) // \x7d\"" 255).isClean = true := by
    decide +kernel
  have hdepth : fragmentDepth (lex "f(\"a$\x7bx\x7d\", m!\x7b \"\x7d\" \x7d) // \x7d\"").tokens ≤ 63 := by
    decide +kernel
  exact ⟨hline, hfaults, hclean, hdepth, read_quotedFragment hline hfaults hclean hdepth⟩

end JuiceSyntax
