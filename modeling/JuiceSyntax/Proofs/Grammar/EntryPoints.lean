/-
  The two entry points agree. A text is an expression just if, bound to a name, it is a program of one item, and then
  the value of the item is that expression (`read_bound`).

  The tokens of the expression stand behind two others there and five bytes later. So its reading is moved twice: on
  by two tokens (`expr_elsewhere`), and behind five bytes of text (`moves_bound`). What the loop over items looks at
  behind the first one shows nothing if there is no second one (`itemsEnding_one`).
-/
import JuiceSyntax.Proofs.Grammar.Onset
import JuiceSyntax.Proofs.Grammar.Resumption
import JuiceSyntax.Proofs.Grammar.Transparency

namespace JuiceSyntax

open Reader Grammar

/-! ## Tokens -/

theorem lexemes_bound (text : List Char) :
    lexemes ("x := ".toList ++ text) =
      [⟨.name, ['x']⟩, ⟨.blank, [' ']⟩, ⟨.mark .colonEq, [':', '=']⟩, ⟨.blank, [' ']⟩] ++ lexemes text := by
  have hname : firstLexeme 'x' (' ' :: ':' :: '=' :: ' ' :: text) = ⟨.name, ['x']⟩ := rfl
  have hblank (rest : List Char) : firstLexeme ' ' rest = ⟨.blank, [' ']⟩ := rfl
  have hmark : firstLexeme ':' ('=' :: ' ' :: text) = ⟨.mark .colonEq, [':', '=']⟩ := rfl
  show lexemes ('x' :: ' ' :: ':' :: '=' :: ' ' :: text) = _
  rw [lexemes_cons (by rw [hname]; rfl), hname, lexemes_cons (by rw [hblank]; rfl), hblank,
    lexemes_cons (by rw [hmark]; rfl), hmark, lexemes_cons (by rw [hblank]; rfl), hblank]
  rfl

/-- The tokens of an expression, behind a name and the sign that binds it. -/
def boundTokens (tokens : List Token) : List Token :=
  ⟨.name "x", ⟨0, 1⟩⟩ :: ⟨.mark .colonEq, ⟨2, 4⟩⟩ :: movedTokens (5 + ·) tokens

theorem lex_bound {source : String} (hline : ¬['#', '!'] <+: source.toList) :
    (lex ("x := " ++ source)).tokens = boundTokens (lex source).tokens ∧
      (lex ("x := " ++ source)).faults = (lex source).faults.map (·.moved (5 + ·)) := by
  have htext : ("x := " ++ source).toList = "x := ".toList ++ source.toList := String.toList_append ..
  obtain ⟨htokens, hfaults⟩ := lex_eq_lexAt source (shebangLine_eq_nil hline)
  obtain ⟨htokens', hfaults'⟩ := lex_eq_lexAt ("x := " ++ source) (by rw [htext]; rfl)
  have hlexed : lexAt none fragmentLimit 0 ("x := ".toList ++ source.toList) =
      ⟨[⟨.name "x", ⟨0, 1⟩⟩, ⟨.mark .colonEq, ⟨2, 4⟩⟩], [], []⟩ ++
        (lexAt none fragmentLimit 0 source.toList).moved (5 + ·) := by
    rw [← lexAt_moved, lexAt_none, lexAt_none, lexemes_bound]
    rfl
  rw [htokens', hfaults', htext, hlexed, htokens, hfaults, List.map_take]
  exact ⟨rfl, rfl⟩

/-- A fault is in a macro body wherever the two stand. -/
theorem outsideBodies_moved (n : Nat) (bodies : List Span) (faults : List LexFault) :
    outsideBodies (bodies.map (·.moved (n + ·))) (faults.map (·.moved (n + ·))) =
      (outsideBodies bodies faults).map (·.moved (n + ·)) := by
  have hholds (body : Span) (fault : LexFault) :
      (body.moved (n + ·)).holds (fault.moved (n + ·)).span = body.holds fault.span := by
    rw [Bool.eq_iff_iff, Span.holds_iff, Span.holds_iff]
    simp only [Span.moved, LexFault.moved, Nat.add_le_add_iff_left]
  simp only [outsideBodies, List.filter_map, List.any_map, Function.comp_def, hholds]

/-! ## Moving -/

theorem moves_bound (source : String) (n : Nat) :
    Level.Moves (behind 5 (byteWidth source.toList) Options.standard.maxDepth) (level (.ofSource source .standard) n)
      (level (.ofSource ("x := " ++ source) .standard) n) := by
  have htext : ("x := " ++ source).toList = "x := ".toList ++ source.toList := String.toList_append ..
  apply level_moves
  case hsource =>
    intro span _ _
    show slice? ("x := " ++ source).toList _ = slice? source.toList span
    rw [htext]
    exact slice?_behind "x := ".toList source.toList span
  case hoptions => rfl
  case hremember => rfl

theorem holds_lex {source : String} (hline : ¬['#', '!'] <+: source.toList) (before limit : Nat) :
    (behind before (byteWidth source.toList) limit).Holds (lex source).tokens := by
  refine ⟨⟨0, ?_⟩, fun _ _ => trivial⟩
  have hlaid := lexAt_laid none fragmentLimit 0 source.toList
  rwa [Nat.zero_add, ← (lex_eq_lexAt source (shebangLine_eq_nil hline)).1] at hlaid

/-- What is read from the text alone and what is read from it behind the name are the same, moved. -/
theorem readsCleanly_moved_iff {source : String} (hline : ¬['#', '!'] <+: source.toList) {n : Nat} {e' : Expr} {t' : State} :
    ReadsCleanly (.ofSource ("x := " ++ source) .standard) n (movedTokens (5 + ·) (lex source).tokens) e' t' ↔
      ∃ e t, ReadsCleanly (.ofSource source .standard) n (lex source).tokens e t ∧ e' = e.moved (5 + ·) ∧
        t' = t.moved (behind 5 (byteWidth source.toList) Options.standard.maxDepth) := by
  have hholds := holds_lex hline 5 Options.standard.maxDepth
  constructor
  · intro h
    obtain ⟨e, t, hreads, -⟩ := ReadsCleanly.exists_of_moved (moves_bound source n) hholds h
    have hmoved := (hreads.moved (moves_bound source n) hholds).read
    obtain ⟨he, ht⟩ := EStateM.Result.ok.inj (h.read.symm.trans hmoved)
    exact ⟨e, t, hreads, he, ht⟩
  · rintro ⟨e, t, hreads, rfl, rfl⟩
    exact hreads.moved (moves_bound source n) hholds

/-! ## Items -/

/-- A program is one item, read without a fault, just if that item is read from all of its tokens. -/
theorem itemsEnding_one {setting : Setting} {tokens : List Token} {first : Item} {t : State}
    (hmid : (Cursor.ofTokens tokens).atEnd = false) (ht : t.Clear) (hend : t.cursor.atEnd = true) :
    itemsEnding setting tokens = .ok [first] t ↔
      item (level setting setting.options.maxDepth) (.ofTokens tokens) = .ok first t := by
  -- Of a turn that fails a fault would be left.
  have hfails {s : State} {items : List Item} {fault : Fault} {start : Cursor} {fuel : Nat} {options : Options}
      (h : itemsUpTo (level setting setting.options.maxDepth) fuel (s.resumed options start .item fault) = .ok items t) :
      False := by
    have hgrows : Grows (s.resumed options start .item fault)
        (Ending.state (itemsUpTo (level setting setting.options.maxDepth) fuel _)) := itemsUpTo_grows fuel _
    rw [h] at hgrows
    exact not_clear_resumed options start .item fault s (hgrows.clear ht)
  obtain ⟨fuel, hfuel⟩ : ∃ fuel, (Cursor.ofTokens tokens).left = fuel + 1 := by
    have := Cursor.left_advance hmid
    exact ⟨_, this.symm⟩
  have hitems : itemsEnding setting tokens =
      itemsUpTo (level setting setting.options.maxDepth) (fuel + 1) (.ofTokens tokens) := by
    rw [← hfuel]
    rfl
  rw [hitems]
  constructor
  · intro h
    obtain ⟨hended, -⟩ | ⟨-, first', rest, u, hitem, hrest, hlist⟩ | ⟨-, fault, u, -, hrest⟩ := recoveringUpTo_cases h
    · have hended : (Cursor.ofTokens tokens).atEnd = true := by simpa [State.ofTokens] using hended
      exact absurd (hended.symm.trans hmid) (by decide)
    · obtain ⟨rfl, rfl⟩ := List.cons.inj hlist
      -- There is no second item, and no fault in its place.
      cases fuel with
      | zero =>
        cases hrest
        exact hitem
      | succ fuel =>
        obtain ⟨-, -, rfl⟩ | ⟨-, second, others, v, -, -, hsecond⟩ | ⟨-, fault, v, -, hrest⟩ := recoveringUpTo_cases hrest
        · exact hitem
        · cases hsecond
        · exact (hfails hrest).elim
    · exact (hfails hrest).elim
  · intro h
    rw [itemsUpTo_ok hmid rfl h, itemsUpTo_of_ended (.inl hend)]
    rfl

/-- The place behind the name and the sign. -/
def behindSign (tokens : List Token) : Cursor := { Cursor.ofTokens tokens with pos := 2, last := some ⟨2, 4⟩ }

/-- The item that binds the name to what is read behind it. -/
theorem item_bound (L : Level) (tokens : List Token) :
    item L (.ofTokens (boundTokens tokens)) =
      Ending.andThen
        (L.expr .value
          { State.ofTokens (movedTokens (5 + ·) tokens) with cursor := behindSign (movedTokens (5 + ·) tokens) })
        fun e s => .ok ⟨.binding "x" ⟨0, 1⟩ none e, false, Span.cover ⟨0, 1⟩ s.cursor.previous⟩ s := by
  generalize htokens : movedTokens (5 + ·) tokens = moved
  generalize hread : L.expr .value { State.ofTokens moved with cursor := behindSign moved } = ending
  -- Up to the value each step is known from the two tokens.
  have hbinding : binding L (.ofTokens (boundTokens tokens)) =
      Ending.andThen ending fun e s => .ok ⟨"x", ⟨0, 1⟩, none, e⟩ s := by
    rw [← hread, ← htokens]
    exact bind_apply L { State.ofTokens _ with cursor := behindSign _ } (Reader.expr .value) fun e =>
      return (⟨"x", ⟨0, 1⟩, none, e⟩ : Binding)
  have hkind : itemKind L (.ofTokens (boundTokens tokens)) =
      Ending.andThen (binding L (.ofTokens (boundTokens tokens))) fun b s =>
        .ok (.binding b.name b.nameSpan b.type b.value) s :=
    bind_apply L (.ofTokens (boundTokens tokens)) binding fun b => return ItemKind.binding b.name b.nameSpan b.type b.value
  have hitem : item L (.ofTokens (boundTokens tokens)) =
      Ending.andThen (itemKind L (.ofTokens (boundTokens tokens))) fun content s =>
        .ok ⟨content, false, Span.cover ⟨0, 1⟩ s.cursor.previous⟩ s :=
    bind_apply L (.ofTokens (boundTokens tokens)) itemKind fun content => do
      return (⟨content, false, ← Reader.spanFrom ⟨0, 1⟩⟩ : Item)
  rw [hitem, hkind, hbinding]
  cases ending <;> rfl

/-- In the place of a value the expression is read as it is alone. -/
theorem item_bound_iff {setting : Setting} {depth : Nat} {tokens : List Token} {first : Item} {u : State} :
    item (level setting depth) (.ofTokens (boundTokens tokens)) = .ok first u ↔
      ∃ e t, (level setting depth).expr .value (.ofTokens (movedTokens (5 + ·) tokens)) = .ok e t ∧ u = t.further 2 ∧
        first = ⟨.binding "x" ⟨0, 1⟩ none e, false, Span.cover ⟨0, 1⟩ u.cursor.previous⟩ := by
  rw [item_bound]
  obtain heq | ⟨fault, t, t', halone, hhere⟩ :=
    expr_elsewhere setting depth .value (behindSign (movedTokens (5 + ·) tokens))
  · have heq : (level setting depth).expr .value
        { State.ofTokens (movedTokens (5 + ·) tokens) with cursor := behindSign (movedTokens (5 + ·) tokens) } =
        Ending.further 2 ((level setting depth).expr .value (.ofTokens (movedTokens (5 + ·) tokens))) := heq
    rw [heq]
    cases (level setting depth).expr .value (.ofTokens (movedTokens (5 + ·) tokens)) with
    | error fault t => exact ⟨nofun, nofun⟩
    | ok e t =>
      constructor
      · intro h
        obtain ⟨rfl, rfl⟩ := EStateM.Result.ok.inj h
        exact ⟨e, t, rfl, rfl, rfl⟩
      · rintro ⟨e', t', hread, rfl, rfl⟩
        obtain ⟨rfl, rfl⟩ := EStateM.Result.ok.inj hread
        rfl
  · have hhere : (level setting depth).expr .value
        { State.ofTokens (movedTokens (5 + ·) tokens) with cursor := behindSign (movedTokens (5 + ·) tokens) } =
        .error fault t' := hhere
    have halone : (level setting depth).expr .value (.ofTokens (movedTokens (5 + ·) tokens)) = .error fault t := halone
    rw [hhere, halone]
    exact ⟨nofun, nofun⟩

/-! ## Documents -/

variable {source : String}

/-- A clean expression is read cleanly, and lexical faults are in its macro bodies only. -/
theorem exprDocument_clean_iff {e : Expr} :
    ((ExprDocument.read source).isClean = true ∧ (ExprDocument.read source).expr = some e) ↔
      ∃ t, ReadsCleanly (.ofSource source .standard) Options.standard.maxDepth (lex source).tokens e t ∧
        outsideBodies t.macroBodies (lex source).faults = [] := by
  constructor
  · rintro ⟨hclean, hexpr⟩
    rw [ExprDocument.isClean, Bool.and_eq_true, Bool.and_eq_true, List.isEmpty_iff, List.isEmpty_iff] at hclean
    obtain ⟨⟨-, hlex⟩, hfaults⟩ := hclean
    have hvalue : (readExpr (.ofSource source .standard) (lex source).tokens).value = some e := hexpr
    obtain ⟨t, hreads⟩ := ReadsCleanly.of_readExpr rfl hvalue hfaults
    have hread : readExpr (.ofSource source .standard) (lex source).tokens = _ := hreads.readExpr
    have hlex : outsideBodies (readExpr (.ofSource source .standard) (lex source).tokens).macroBodies (lex source).faults = [] :=
      hlex
    rw [hread] at hlex
    exact ⟨t, hreads, hlex⟩
  · rintro ⟨t, hreads, hlex⟩
    have hread : readExpr (.ofSource source .standard) (lex source).tokens = _ := hreads.readExpr
    have hdocument : ExprDocument.read source = ⟨some e, [], []⟩ := by
      rw [ExprDocument.read, hread, hlex]
    rw [hdocument]
    exact ⟨rfl, rfl⟩

/-- A clean program of one item is that item, read cleanly. -/
theorem document_one_iff {first : Item} (hmid : (Cursor.ofTokens (lex source).tokens).atEnd = false) :
    ((Document.read source .standard).isClean = true ∧ (Document.read source .standard).program.items = [first]) ↔
      ∃ t, item (level (.ofSource source .standard) Options.standard.maxDepth) (.ofTokens (lex source).tokens) = .ok first t ∧
        t.Clear ∧ t.cursor.atEnd = true ∧ outsideBodies t.macroBodies (lex source).faults = [] := by
  rw [read_eq source rfl, Document.isClean, Bool.and_eq_true, List.isEmpty_iff, List.isEmpty_iff]
  constructor
  · rintro ⟨⟨hlex, hfaults⟩, hitems⟩
    obtain ⟨t, hread, hclear, hend⟩ := readItems_clear hfaults
    have hitems : (readItems (.ofSource source .standard) (lex source).tokens).value = [first] := hitems
    rw [hitems] at hread
    have hlex : outsideBodies (readItems (.ofSource source .standard) (lex source).tokens).macroBodies (lex source).faults = [] :=
      hlex
    rw [readItems_eq, hread] at hlex
    exact ⟨t, (itemsEnding_one hmid hclear hend).1 hread, hclear, hend, hlex⟩
  · rintro ⟨t, hitem, hclear, hend, hlex⟩
    rw [readItems_eq, (itemsEnding_one hmid hclear hend).2 hitem]
    exact ⟨⟨hlex, hclear.faults⟩, rfl⟩

/-- A clean program of one item, if it binds the name to a text, is the binding of what is read cleanly from the text
alone. -/
theorem document_bound_iff (hline : ¬['#', '!'] <+: source.toList) {first : Item} :
    ((Document.read ("x := " ++ source) .standard).isClean = true ∧
        (Document.read ("x := " ++ source) .standard).program.items = [first]) ↔
      ∃ e t, ReadsCleanly (.ofSource source .standard) Options.standard.maxDepth (lex source).tokens e t ∧
        outsideBodies t.macroBodies (lex source).faults = [] ∧
        first = ⟨.binding "x" ⟨0, 1⟩ none (e.moved (5 + ·)), false,
          Span.cover ⟨0, 1⟩ (t.cursor.moved (5 + ·)).previous⟩ := by
  obtain ⟨htokens, hfaults⟩ := lex_bound hline
  rw [document_one_iff (by rw [htokens]; rfl), htokens, hfaults]
  simp only [item_bound_iff]
  constructor
  · rintro ⟨u, ⟨e', t', hread, rfl, rfl⟩, hclear, hend, hlex⟩
    obtain ⟨e, t, hreads, rfl, rfl⟩ := (readsCleanly_moved_iff hline).1 ⟨hread, ⟨hclear.faults, hclear.halted⟩, hend⟩
    have hlex : outsideBodies (t.macroBodies.map (·.moved (5 + ·))) ((lex source).faults.map (·.moved (5 + ·))) = [] := hlex
    rw [outsideBodies_moved, List.map_eq_nil_iff] at hlex
    exact ⟨e, t, hreads, hlex, rfl⟩
  · rintro ⟨e, t, hreads, hlex, rfl⟩
    have hmoved := (readsCleanly_moved_iff hline).2 ⟨e, t, hreads, rfl, rfl⟩
    refine ⟨_, ⟨_, _, hmoved.read, rfl, rfl⟩, ⟨hmoved.clear.faults, hmoved.clear.halted⟩, hmoved.atEnd, ?_⟩
    show outsideBodies (t.macroBodies.map (·.moved (5 + ·))) _ = []
    rw [outsideBodies_moved, hlex]
    rfl

/-- The two entry points agree: a text is an expression just if it is the only item of a program when it is bound to a
name, and that item has the expression as its value. -/
theorem read_bound (hline : ¬['#', '!'] <+: source.toList) :
    ((ExprDocument.read source).isClean = true ↔
        (Document.read ("x := " ++ source) .standard).isClean = true ∧
          (Document.read ("x := " ++ source) .standard).program.items.length = 1) ∧
      ((ExprDocument.read source).isClean = true → ∃ e value nameSpan span, (ExprDocument.read source).expr = some e ∧
        (Document.read ("x := " ++ source) .standard).program.items =
          [⟨.binding "x" nameSpan none value, false, span⟩] ∧
        value.sexpr = e.sexpr) := by
  have hexists (hclean : (ExprDocument.read source).isClean = true) : ∃ e, (ExprDocument.read source).expr = some e := by
    rw [ExprDocument.isClean, Bool.and_eq_true, Bool.and_eq_true] at hclean
    exact Option.isSome_iff_exists.1 hclean.1.1
  refine ⟨⟨fun hclean => ?_, fun hone => ?_⟩, fun hclean => ?_⟩
  · obtain ⟨e, hexpr⟩ := hexists hclean
    obtain ⟨t, hreads, hlex⟩ := exprDocument_clean_iff.1 ⟨hclean, hexpr⟩
    obtain ⟨hclean', hitems⟩ := (document_bound_iff hline).2 ⟨e, t, hreads, hlex, rfl⟩
    exact ⟨hclean', by rw [hitems]; rfl⟩
  · obtain ⟨hclean, hlength⟩ := hone
    obtain ⟨first, hitems⟩ := List.length_eq_one_iff.1 hlength
    obtain ⟨e, t, hreads, hlex, -⟩ := (document_bound_iff hline).1 ⟨hclean, hitems⟩
    exact (exprDocument_clean_iff.2 ⟨t, hreads, hlex⟩).1
  · obtain ⟨e, hexpr⟩ := hexists hclean
    obtain ⟨t, hreads, hlex⟩ := exprDocument_clean_iff.1 ⟨hclean, hexpr⟩
    obtain ⟨-, hitems⟩ := (document_bound_iff hline).2 ⟨e, t, hreads, hlex, rfl⟩
    exact ⟨e, _, _, _, hexpr, hitems, Expr.sexpr_moved _ e⟩

/-- A block whose macro body holds a character that is no token. -/
theorem read_bound_block :
    ¬['#', '!'] <+: "\x7b y := m!\x7b @ \x7d y \x7d".toList ∧
      (ExprDocument.read "\x7b y := m!\x7b @ \x7d y \x7d").isClean = true ∧
      ((ExprDocument.read "\x7b y := m!\x7b @ \x7d y \x7d").isClean = true ↔
        (Document.read ("x := " ++ "\x7b y := m!\x7b @ \x7d y \x7d") .standard).isClean = true ∧
          (Document.read ("x := " ++ "\x7b y := m!\x7b @ \x7d y \x7d") .standard).program.items.length = 1) ∧
      ((ExprDocument.read "\x7b y := m!\x7b @ \x7d y \x7d").isClean = true → ∃ e value nameSpan span,
        (ExprDocument.read "\x7b y := m!\x7b @ \x7d y \x7d").expr = some e ∧
          (Document.read ("x := " ++ "\x7b y := m!\x7b @ \x7d y \x7d") .standard).program.items =
            [⟨.binding "x" nameSpan none value, false, span⟩] ∧
          value.sexpr = e.sexpr) := by
  have hline : ¬['#', '!'] <+: "\x7b y := m!\x7b @ \x7d y \x7d".toList := by decide +kernel
  have hclean : (ExprDocument.read "\x7b y := m!\x7b @ \x7d y \x7d").isClean = true := by decide +kernel
  exact ⟨hline, hclean, read_bound hline⟩

end JuiceSyntax
