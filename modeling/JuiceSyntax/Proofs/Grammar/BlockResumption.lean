/-
  Resuming in a block. In the body of a function, whatever stands before a statement that begins with
  a word of its own, if the braces there are balanced, the statements come to that word
  (`Wall.nears_statement`), and from there on they are those of a body that begins there
  (`statementsUpTo_resumes`).

  `readItems_resumes_statement`: so the function ends with the statements of the one that begins
  there. For this the faults of the whole have to be gentle: after one that is not, recovery may have
  passed an opening brace uncounted, and then the function ends too early
  (`stuck_arm_swallows_return`).
-/
import JuiceSyntax.Proofs.Grammar.BraceFidelity
import JuiceSyntax.Proofs.Grammar.Consuming
import JuiceSyntax.Proofs.Grammar.Resumption
import JuiceSyntax.Proofs.Token.BracePairs

namespace JuiceSyntax

open Reader Grammar

/-! ## Statements at the wall -/

section

variable {w : Wall} {L : Level}

theorem opens_statementKind (hopens : opensStatement w.first.kind = true) : Opens w L statementKind := by
  refine .kind ?_
  obtain hk | hk | hk | hk := opensStatement_cases hopens
  · rw [hk]
    exact .advance fun _ => composed_leaveRest
  · rw [hk]
    exact .advance fun _ => .pure _
  · rw [hk]
    exact .advance fun _ => .pure _
  · rw [hk]
    exact .needWord (by rw [hk]; rfl) composed_loopRest

/-- A statement begins with the word at the wall. -/
theorem opens_statement (hopens : opensStatement w.first.kind = true) : Opens w L statement :=
  .here (.bind (opens_statementKind hopens) fun _ => .bind (.spanFrom _) fun _ => .pure _)

end

/-! ## Up to the wall -/

/-- The state is in the document of the wall, and what it remembers is before the wall. -/
structure Wall.Has (w : Wall) (s : State) : Prop where
  rest : s.cursor.rest <:+ w.before ++ w.tail
  remembers : w.Remembers s

namespace Wall.Has

variable {w : Wall} {s t : State} {inner : List Token}

theorem inside (h : w.Has s) (hbefore : s.cursor.LeadsTo inner w.tail) : w.Inside 0 s := by
  obtain ⟨front, hfront⟩ := h.rest
  rw [hbefore.rest, ← List.append_assoc, List.append_cancel_right_eq] at hfront
  exact ⟨⟨inner, 0, ⟨front, hfront⟩, hbefore.rest, Nat.le_refl _, hbefore.closes⟩, h.remembers⟩

theorem of_inside (h : w.Inside 0 s) : w.Has s ∧ ∃ inner, s.cursor.rest = inner ++ w.tail := by
  obtain ⟨⟨inner, -, ⟨front, hfront⟩, hrest, -⟩, hremembers⟩ := h
  exact ⟨⟨⟨front, by rw [hrest, ← List.append_assoc, hfront]⟩, hremembers⟩, inner, hrest⟩

theorem grows (h : w.Has s) (hgrows : Grows s t) (hfailed : ∀ form, t.failed form = s.failed form) : w.Has t := by
  obtain ⟨passed, hpassed⟩ := hgrows.rest
  exact ⟨(List.suffix_append passed _).trans (hpassed ▸ h.rest), h.remembers.congr hfailed⟩

end Wall.Has

section

variable {w : Wall} {setting : Setting} {doc : List Token} {n : Nat}

/-- A statement that begins before the wall ends before it. -/
theorem Wall.Has.statement {s : State} {inner : List Token} (h : w.Has s) (hbefore : s.cursor.LeadsTo inner w.tail)
    (hne : inner ≠ []) (setting : Setting) (n : Nat) :
    w.Has (Ending.state (Grammar.statement (level setting n) s)) ∧
      ∃ inner', (Ending.state (Grammar.statement (level setting n) s)).cursor.rest = inner' ++ w.tail := by
  have hahead : w.Ahead s.cursor := fun heq => hne (List.append_left_eq_self.1 (hbefore.rest.symm.trans heq))
  have hstays := stays_statement (level_stays w setting n) 0 s (h.inside hbefore) hahead (j := 0)
  cases hread : Grammar.statement (level setting n) s with
  | ok a t =>
    rw [hread] at hstays
    exact Wall.Has.of_inside hstays
  | error fault t =>
    rw [hread] at hstays
    exact Wall.Has.of_inside hstays

/-- Statements before the wall are balanced and end before it. -/
theorem Wall.nears_statement (w : Wall) (hL : (level setting n).Evenly setting doc) :
    Nears doc (level setting n) w.tail w.Has (fun _ => True) statement where
  grows := (evenly_statement (p := fun _ => True) hL).grows
  takes := takes_statement hL.takes
  firm := firm_statement hL
  ok {s a t inner} hs hstands hbefore hne hr ht := by
    have hends := hs.statement hbefore hne setting n
    rw [hr] at hends
    obtain ⟨ht', inner', hrest⟩ := hends
    obtain ⟨heven, -⟩ := (evenly_statement (p := fun _ => True) hL).ok trivial hstands hr ht
    exact ⟨ht', trivial, inner', hbefore.even heven hrest⟩
  error {s fault t inner} hs hstands hbefore hne hr ht hmild := by
    have hends := hs.statement hbefore hne setting n
    rw [hr] at hends
    obtain ⟨ht', inner', hrest⟩ := hends
    have heven := (evenly_statement (p := fun _ => True) hL).error trivial hstands hr ht hmild
    exact ⟨ht', inner', hbefore.even heven hrest⟩
  resumed {start resume fault t} h := h.grows (.resumed _ start resume fault t) (failed_resumed _ start resume fault t)

/-- What the statements of a block are, with some number of turns allowed. -/
def statementsUpTo (L : Level) (fuel : Nat) (s : State) : Ending (List Statement) :=
  recoveringUpTo .statement (·.isMark .rBrace) statement fuel L s

/-- The statements of a block that is calm end with those that begin at the wall. -/
theorem statementsUpTo_resumes (hL : (level setting n).Evenly setting doc) (hopens : opensStatement w.first.kind = true)
    (hlate : Late (w.offset + 1) w.after) {s t : State} {statements : List Statement} {inner : List Token} (hs : w.Has s)
    (hbefore : s.cursor.LeadsTo inner w.tail) (hstands : Stands doc s.cursor.rest)
    (hr : statementsUpTo (level setting n) s.cursor.left s = .ok statements t) (ht : t.Calm)
    {c : Cursor} (hrest : c.rest = w.tail) (hpos : c.pos ≤ s.cursor.pos) :
    ∃ earlier later t' k δ, statements = earlier ++ later ∧ Shifted k δ t t' ∧
      statementsUpTo (level setting n) c.left { State.ofTokens [] with cursor := c } = .ok later t' := by
  obtain ⟨earlier, later, u, rfl, -, hgrows, hu, hcalm, hutail, hlater⟩ :=
    (w.nears_statement hL).reaches w.distance_statement hs hbefore hstands (Nat.le_refl _) hr ht
  have hhere : c.rest = u.cursor.rest := hrest.trans hutail.symm
  have hforward : s.cursor.pos ≤ u.cursor.pos := by
    obtain ⟨m, hm⟩ := hgrows.cursor
    have hsum := s.cursor.pos_add_left_skip m
    have hle := hgrows.left_le
    rw [← hm] at hsum
    omega
  have habreast : u.cursor.Abreast (u.cursor.pos - c.pos) c := ⟨by omega, hhere.symm⟩
  have hends : w.first.kind.isMark .rBrace = false := by
    obtain hk | hk | hk | hk := opensStatement_cases hopens
    all_goals rw [hk]; rfl
  have hresumes (hend : (Ending.state (statementsUpTo (level setting n) u.cursor.left u)).Harmless) :
      Ending.Shifted (u.cursor.pos - c.pos) u.shift (statementsUpTo (level setting n) u.cursor.left u)
        (statementsUpTo (level setting n) u.cursor.left { State.ofTokens [] with cursor := c }) :=
    recoveringUpTo_resumes composed_statement (opens_statement hopens) hends hlate hu.remembers hutail hcalm.goes habreast hend
  change statementsUpTo (level setting n) u.cursor.left u = .ok later t at hlater
  rw [hlater, Ending.state_ok, habreast.left] at hresumes
  have hshifted := hresumes fun fault hmem => (ht.faults fault hmem).mild
  obtain ⟨others, t', hothers⟩ : ∃ others t',
      statementsUpTo (level setting n) c.left { State.ofTokens [] with cursor := c } = .ok others t' :=
    recoveringUpTo_ok _ _
  rw [hothers] at hshifted
  cases hshifted with
  | ok later hshift => exact ⟨earlier, later, t', _, _, rfl, hshift, hothers⟩

end

/-! ## Functions -/

/-- What stands around the body of a function without parameters, and around the whole of it. -/
structure FnFrame where
  text : String
  keyword : Span
  name : Span
  lParen : Span
  rParen : Span
  lBrace : Span
  rBrace : Span
  done : Span

namespace FnFrame

/-- `fn f() {` -/
def opening (f : FnFrame) : List Token :=
  [⟨.word .fnWord, f.keyword⟩, ⟨.name f.text, f.name⟩, ⟨.mark .lParen, f.lParen⟩, ⟨.mark .rParen, f.rParen⟩,
    ⟨.mark .lBrace, f.lBrace⟩]

/-- `}` and the end. -/
def closing (f : FnFrame) : List Token := [⟨.mark .rBrace, f.rBrace⟩, ⟨.done, f.done⟩]

/-- A program of one function with this body. -/
def around (f : FnFrame) (body : List Token) : List Token := f.opening ++ (body ++ f.closing)

/-- The function, if its body is read as these statements. -/
def item (f : FnFrame) (statements : List Statement) : Item :=
  ⟨.fn ⟨false, some ⟨f.text, false, f.name⟩, [], none, ⟨statements, f.lBrace.cover f.rBrace⟩, f.keyword.cover f.rBrace⟩,
    false, f.keyword.cover f.rBrace⟩

/-- The state in which the statements of the body begin. -/
def inside (f : FnFrame) (body : List Token) : State := (State.ofTokens (f.around body)).skipped 5

theorem rest_inside (f : FnFrame) (body : List Token) : (f.inside body).cursor.rest = body ++ f.closing := rfl

end FnFrame

section

variable {f : FnFrame} {setting : Setting} {doc : List Token} {n : Nat} {body : List Token} {L : Level}

/-- The function is read up to its block, and what is read of that is all that it needs. -/
theorem item_around : item L (.ofTokens (f.around body)) =
    Ending.andThen (L.block ((State.ofTokens (f.around body)).skipped 4)) fun block u =>
      .ok ⟨.fn ⟨false, some ⟨f.text, false, f.name⟩, [], none, block, f.keyword.cover u.cursor.previous⟩, false,
        f.keyword.cover u.cursor.previous⟩ u := by
  change (((Reader.block >>= fun block => Reader.spanFrom f.keyword >>= fun span =>
      pure (⟨false, some ⟨f.text, false, f.name⟩, [], none, block, span⟩ : FnDecl)) >>= fun decl => pure (ItemKind.fn decl)) >>=
    fun content => Reader.spanFrom f.keyword >>= fun span => pure (⟨content, false, span⟩ : Item)) L
      ((State.ofTokens (f.around body)).skipped 4) = _
  rw [bind_apply, bind_apply, bind_apply]
  change Ending.andThen (Ending.andThen (Ending.andThen (L.block _) _) _) _ = _
  cases L.block ((State.ofTokens (f.around body)).skipped 4) <;> rfl

theorem blockBody_around : blockBody L ((State.ofTokens (f.around body)).skipped 4) =
    Ending.andThen (statementsUpTo L (f.inside body).cursor.left (f.inside body)) fun statements u =>
      blockEnd f.lBrace statements L u := by
  change (needMark .lBrace >>= fun opening => recovering .statement (·.isMark .rBrace) statement >>= blockEnd opening) L _ = _
  rw [bind_apply, needMark_apply, if_pos (by rfl), Ending.andThen_ok, bind_apply, recovering_apply]
  rfl

/-- In a calm loop the first turn is calm, and if it fails then not for good. -/
theorem calm_of_turn {α : Type} {resume : Resume} {ends : Kind → Bool} {reader : Reader α}
    (hgrows : ∀ s, Grows s (Ending.state (reader L s))) {fuel : Nat} {s t : State} {items : List α}
    (hgoes : (ends s.cursor.kind || s.cursor.atEnd || s.halted) = false)
    (hr : recoveringUpTo resume ends reader (fuel + 1) L s = .ok items t) (ht : t.Calm) :
    (Ending.state (reader L s)).Calm ∧ ∀ fault u, reader L s = .error fault u → fault.isFatal = false := by
  have hloop (u : State) := recoveringUpTo_steady (grows_steady inherited_true L.options)
    (fun s _ => hgrows s) resume ends fuel u trivial
  obtain ⟨hended, -⟩ | ⟨-, first, rest, u, hfirst, hrest, -⟩ | ⟨-, fault, u, hfirst, hrest⟩ := recoveringUpTo_cases hr
  · exact absurd (hgoes.symm.trans hended) (by decide)
  · have hgrown := hloop u
    rw [hrest] at hgrown
    rw [hfirst]
    refine ⟨hgrown.calm ht, fun fault' u' heq => ?_⟩
    cases heq
  · have hgrown := hloop (u.resumed L.options s.cursor resume fault)
    rw [hrest] at hgrown
    obtain ⟨hu, hmild, -⟩ := calm_of_resumed (hgrown.calm ht)
    rw [hfirst]
    refine ⟨hu, fun fault' u' heq => ?_⟩
    cases heq
    exact hmild

theorem itemsEnding_around : itemsEnding setting (f.around body) =
    itemsUpTo (level setting setting.options.maxDepth) ((body ++ f.closing).length + 4 + 1) (.ofTokens (f.around body)) :=
  rfl

/-- The block of a function that is read calmly is not too deep, and its statements are read calmly. -/
theorem statements_of_calm {items : List Item} {t : State} (hr : itemsEnding setting (f.around body) = .ok items t)
    (ht : t.Calm) : ∃ n statements u, setting.options.maxDepth = n + 1 ∧
      statementsUpTo (level setting n) (f.inside body).cursor.left (f.inside body) = .ok statements u ∧ u.Calm := by
  have hL := level_grows setting
  rw [itemsEnding_around] at hr
  obtain ⟨hcalm, hmild⟩ := calm_of_turn (fun s => composed_item.grows inherited_true (hL _) s trivial) rfl hr ht
  cases hdepth : setting.options.maxDepth with
  | zero =>
    rw [hdepth] at hmild
    exact nomatch (hmild _ _ item_around : true = false)
  | succ n =>
    obtain ⟨statements, u, hu⟩ : ∃ statements u,
        statementsUpTo (level setting n) (f.inside body).cursor.left (f.inside body) = .ok statements u :=
      recoveringUpTo_ok _ _
    have hblock : (level setting (n + 1)).block ((State.ofTokens (f.around body)).skipped 4) =
        blockEnd f.lBrace statements (level setting n) u := by
      change blockBody (level setting n) _ = _
      rw [blockBody_around, hu, Ending.andThen_ok]
    have hend := (composed_blockEnd f.lBrace statements).grows inherited_true (hL n) u trivial
    rw [hdepth, item_around, hblock] at hcalm
    refine ⟨n, statements, u, rfl, hu, hend.calm ?_⟩
    cases hread : blockEnd f.lBrace statements (level setting n) u with
    | ok block v =>
      rw [hread] at hcalm
      exact hcalm
    | error fault v =>
      rw [hread] at hcalm
      exact hcalm

/-- If the statements of a body are read up to the brace that closes it, the program is the function. -/
theorem items_of_statements (hdepth : setting.options.maxDepth = n + 1) {statements : List Statement} {u : State}
    (hr : statementsUpTo (level setting n) (f.inside body).cursor.left (f.inside body) = .ok statements u)
    (hrest : u.cursor.rest = f.closing) :
    itemsEnding setting (f.around body) = .ok [f.item statements] (u.skipped 1) := by
  have hkind : u.cursor.kind = .mark .rBrace := Cursor.kind_of_rest hrest
  have hmid : u.cursor.atEnd = false := by rw [Cursor.atEnd, hkind]; rfl
  have hspan : u.cursor.span = f.rBrace := Cursor.span_of_rest hrest
  have hblock : (level setting (n + 1)).block ((State.ofTokens (f.around body)).skipped 4) =
      .ok ⟨statements, f.lBrace.cover f.rBrace⟩ (u.skipped 1) := by
    change blockBody (level setting n) _ = _
    rw [blockBody_around, hr, Ending.andThen_ok, blockEnd_of_closing hkind, hspan]
    rfl
  have hprevious : (u.skipped 1).cursor.previous = f.rBrace := by
    change u.cursor.advance.previous = _
    rw [Cursor.previous, (Cursor.advance_of_mid hmid).2.1, Option.getD_some, hspan]
  have hitem : item (level setting (n + 1)) (.ofTokens (f.around body)) = .ok (f.item statements) (u.skipped 1) := by
    rw [item_around, hblock, Ending.andThen_ok, hprevious]
    rfl
  have hend : (u.skipped 1).cursor.atEnd = true := by
    change u.cursor.advance.atEnd = _
    rw [Cursor.atEnd, Cursor.kind_of_rest (Cursor.rest_advance_of_rest hrest rfl)]
    rfl
  rw [itemsEnding_around, hdepth, itemsUpTo_ok rfl rfl hitem, itemsUpTo_of_ended (.inl hend)]
  rfl

end

/-! ## Programs -/

/-- However a function begins, if the braces of that are balanced, then from a statement on that begins
with a word of its own it goes on like the function that begins there. -/
theorem FnFrame.readItems_around (f : FnFrame) {setting : Setting} {before after : List Token} {first : Token}
    (hstrict : setting.options.strict = false) (hlaid : ∃ lo hi, Laid lo (f.around (before ++ first :: after)) hi)
    (hmatch : BracesMatch (f.around (before ++ first :: after))) (hbefore : Balanced before)
    (hafter : Balanced (first :: after)) (hfirst : opensStatement first.kind = true)
    (hfaults : ∀ fault ∈ (readItems setting (f.around (before ++ first :: after))).faults, fault.Gentle) :
    ∃ earlier later, (readItems setting (f.around (before ++ first :: after))).value = [f.item (earlier ++ later)] ∧
      (readItems setting (f.around (first :: after))).value = [f.item later] ∧
      (readItems setting (f.around (first :: after))).faults <:+
        (readItems setting (f.around (before ++ first :: after))).faults := by
  obtain ⟨lo, hi, hlaid⟩ := hlaid
  have hstands := stands_self ⟨lo, hi, hlaid⟩
  have hopening : f.around (before ++ first :: after) = f.opening ++ before ++ first :: (after ++ f.closing) := by
    simp only [FnFrame.around, List.append_assoc, List.cons_append]
  have hclosing : f.around (before ++ first :: after) =
      f.opening ++ (before ++ first :: after) ++ ⟨.mark .rBrace, f.rBrace⟩ :: [⟨.done, f.done⟩] := by
    simp only [FnFrame.around, List.append_assoc]
    rfl
  have hundone : Undone (before ++ first :: after) := (hclosing ▸ hlaid).of_append.2.1.of_append
  have hitem : opensItem first.kind = false := by
    obtain hk | hk | hk | hk := opensStatement_cases hfirst
    all_goals rw [hk]; rfl
  rw [hopening] at hlaid
  let w := Wall.ofLaid hlaid (by rw [standsFirst, hfirst, Bool.or_true]) fun h => absurd (h.symm.trans hitem) (by decide)
  have hlate : Late (w.offset + 1) w.after := hlaid.of_append.1.late w.isDone_first
  obtain ⟨items, t, hread, ht⟩ := itemsEnding_calm hstrict hfaults
  obtain ⟨n, statements, u, hdepth, hu, hcalm⟩ := statements_of_calm hread ht
  have hL := level_evenly setting hmatch n
  have hinside : Stands _ (f.inside (before ++ first :: after)).cursor.rest := (Grows.skipped _ 5).stands hstands
  have hhas : w.Has (f.inside (before ++ first :: after)) :=
    ⟨⟨f.opening, by rw [f.rest_inside]; exact hopening⟩, fun form _ hmem => by cases form <;> cases hmem⟩
  have hwall : (f.inside (before ++ first :: after)).cursor.LeadsTo before w.tail :=
    ⟨by rw [f.rest_inside, List.append_assoc]; rfl, hbefore.closes, w.undone.of_append⟩
  have hwithin : (f.inside (before ++ first :: after)).cursor.Within (before ++ first :: after)
      ⟨.mark .rBrace, f.rBrace⟩ [⟨.done, f.done⟩] :=
    ⟨⟨rfl, hbefore.closes.append hafter.closes, hundone⟩, rfl⟩
  obtain ⟨hclose, -⟩ := turns_closes (evenly_statement hL) (takes_statement hL.takes) (firm_statement hL) rfl hwithin
    hinside (Nat.le_refl _) hu hcalm
  obtain ⟨earlier, later, u', k, δ, rfl, hshift, hlater⟩ := statementsUpTo_resumes hL hfirst hlate hhas hwall hinside hu
    hcalm (c := (f.inside (first :: after)).cursor) rfl (Nat.le_refl 5)
  have hwhole := items_of_statements hdepth hu hclose
  have hpart : itemsEnding setting (f.around (first :: after)) = _ :=
    items_of_statements hdepth hlater (hshift.cursor.rest.symm.trans hclose)
  rw [readItems_eq, readItems_eq, hwhole, hpart]
  exact ⟨earlier, later, rfl, rfl, δ.faults, hshift.faults.symm⟩

/-- So it is in every source that is one function. The braces in its strings need not be asked for: its
last token is a brace, so no string is open. -/
theorem readItems_resumes_statement {setting : Setting} {source : String} {f : FnFrame} {before after : List Token}
    {first : Token} (hstrict : setting.options.strict = false)
    (hsource : (lex source).tokens = f.around (before ++ first :: after)) (hbefore : Balanced before)
    (hafter : Balanced (first :: after)) (hfirst : opensStatement first.kind = true)
    (hfaults : ∀ fault ∈ (readItems setting (lex source).tokens).faults, fault.Gentle) :
    ∃ earlier later, (readItems setting (lex source).tokens).value = [f.item (earlier ++ later)] ∧
      (readItems setting (f.around (first :: after))).value = [f.item later] ∧
      (readItems setting (f.around (first :: after))).faults <:+ (readItems setting (lex source).tokens).faults := by
  have hlaid := lex_laid source
  have hlast : (lex source).tokens =
      f.opening ++ (before ++ first :: after) ++ [⟨.mark .rBrace, f.rBrace⟩, ⟨.done, f.done⟩] := by
    rw [hsource, FnFrame.around, ← List.append_assoc]
    rfl
  have hcloses : Closes 0 (lex source).tokens := by
    have hopening : Closes 0 (f.opening ++ (before ++ first :: after ++ f.closing)) :=
      .other rfl rfl (.other rfl rfl (.other rfl rfl (.other rfl rfl (.opening rfl
        ((hbefore.closes.append hafter.closes).append (.closing rfl (.other rfl rfl .nil)))))))
    rw [hsource]
    exact hopening
  have hmatch := lex_bracesMatch hlast nofun hcloses
  rw [hsource] at hlaid hmatch hfaults ⊢
  exact f.readItems_around hstrict hlaid hmatch hbefore hafter hfirst hfaults

/-- The return is read although the binding before it breaks off in a parenthesis. -/
theorem readItems_resumes_statement_return :
    (readItems (.ofSource "fn f() \x7b x := ( \x7b a \x7d return 1 \x7d" .standard)
        (lex "fn f() \x7b x := ( \x7b a \x7d return 1 \x7d").tokens).faults.length = 1 ∧
      ∃ (f : FnFrame) (before after : List Token) (first : Token) (earlier later : List Statement),
        (lex "fn f() \x7b x := ( \x7b a \x7d return 1 \x7d").tokens = f.around (before ++ first :: after) ∧
        first.kind = .word .returnWord ∧
        (readItems (.ofSource "fn f() \x7b x := ( \x7b a \x7d return 1 \x7d" .standard)
          (lex "fn f() \x7b x := ( \x7b a \x7d return 1 \x7d").tokens).value = [f.item (earlier ++ later)] ∧
        (readItems (.ofSource "fn f() \x7b x := ( \x7b a \x7d return 1 \x7d" .standard)
          (f.around (first :: after))).value = [f.item later] ∧
        (readItems (.ofSource "fn f() \x7b x := ( \x7b a \x7d return 1 \x7d" .standard)
          (f.around (first :: after))).faults = [] := by
  let f : FnFrame := ⟨"f", ⟨0, 2⟩, ⟨3, 4⟩, ⟨4, 5⟩, ⟨5, 6⟩, ⟨7, 8⟩, ⟨31, 32⟩, ⟨32, 32⟩⟩
  let before : List Token := [⟨.name "x", ⟨9, 10⟩⟩, ⟨.mark .colonEq, ⟨11, 13⟩⟩, ⟨.mark .lParen, ⟨14, 15⟩⟩,
    ⟨.mark .lBrace, ⟨16, 17⟩⟩, ⟨.name "a", ⟨18, 19⟩⟩, ⟨.mark .rBrace, ⟨20, 21⟩⟩]
  let first : Token := ⟨.word .returnWord, ⟨22, 28⟩⟩
  let after : List Token := [⟨.int 1 .decimal, ⟨29, 30⟩⟩]
  have hsource : (lex "fn f() \x7b x := ( \x7b a \x7d return 1 \x7d").tokens = f.around (before ++ first :: after) := rfl
  have hstrict : (Setting.ofSource "fn f() \x7b x := ( \x7b a \x7d return 1 \x7d" .standard).options.strict = false := rfl
  obtain ⟨earlier, later, hwhole, hpart, -⟩ :=
    readItems_resumes_statement hstrict hsource (by decide) (by decide) rfl (by decide +kernel)
  exact ⟨by decide +kernel, f, before, after, first, earlier, later, hsource, rfl, hwhole, hpart, by decide +kernel⟩

/-- Where the statements of a function stand. -/
def Item.statementSpans (item : Item) : List Span :=
  match item.kind with
  | .fn decl => decl.body.statements.map (·.span)
  | _ => []

/-- The first arm begins with the brace at 19, which recovery passes uncounted. So the arms end at the brace
after them, the function at the one that closes the arms, and the return in it is no statement of it. -/
theorem stuck_arm_swallows_return :
    ∃ (f : FnFrame) (before after : List Token) (first : Token),
      (lex "fn f() \x7b match x \x7b \x7b a \x7d \x7d return 1 \x7d").tokens = f.around (before ++ first :: after) ∧
      Balanced before ∧ Balanced (first :: after) ∧ opensStatement first.kind = true ∧
      (∀ fault ∈ (readItems (.ofSource "fn f() \x7b match x \x7b \x7b a \x7d \x7d return 1 \x7d" .standard)
        (lex "fn f() \x7b match x \x7b \x7b a \x7d \x7d return 1 \x7d").tokens).faults, fault.isFatal = false) ∧
      ¬∃ (decl decl' : FnDecl) (exported exported' : Bool) (span span' : Span),
        (readItems (.ofSource "fn f() \x7b match x \x7b \x7b a \x7d \x7d return 1 \x7d" .standard)
          (lex "fn f() \x7b match x \x7b \x7b a \x7d \x7d return 1 \x7d").tokens).value = [⟨.fn decl, exported, span⟩] ∧
        (readItems (.ofSource "fn f() \x7b match x \x7b \x7b a \x7d \x7d return 1 \x7d" .standard)
          (f.around (first :: after))).value = [⟨.fn decl', exported', span'⟩] ∧
        decl'.body.statements <:+ decl.body.statements := by
  let f : FnFrame := ⟨"f", ⟨0, 2⟩, ⟨3, 4⟩, ⟨4, 5⟩, ⟨5, 6⟩, ⟨7, 8⟩, ⟨36, 37⟩, ⟨37, 37⟩⟩
  let before : List Token := [⟨.word .matchWord, ⟨9, 14⟩⟩, ⟨.name "x", ⟨15, 16⟩⟩, ⟨.mark .lBrace, ⟨17, 18⟩⟩,
    ⟨.mark .lBrace, ⟨19, 20⟩⟩, ⟨.name "a", ⟨21, 22⟩⟩, ⟨.mark .rBrace, ⟨23, 24⟩⟩, ⟨.mark .rBrace, ⟨25, 26⟩⟩]
  let first : Token := ⟨.word .returnWord, ⟨27, 33⟩⟩
  let after : List Token := [⟨.int 1 .decimal, ⟨34, 35⟩⟩]
  have hwhole : ((readItems (.ofSource "fn f() \x7b match x \x7b \x7b a \x7d \x7d return 1 \x7d" .standard)
      (lex "fn f() \x7b match x \x7b \x7b a \x7d \x7d return 1 \x7d").tokens).value.map Item.statementSpans) =
        [[⟨9, 24⟩]] := by decide +kernel
  have hpart : ((readItems (.ofSource "fn f() \x7b match x \x7b \x7b a \x7d \x7d return 1 \x7d" .standard)
      (f.around (first :: after))).value.map Item.statementSpans) = [[⟨27, 35⟩]] := by decide +kernel
  refine ⟨f, before, after, first, rfl, by decide, by decide, rfl, by decide +kernel, ?_⟩
  rintro ⟨decl, decl', exported, exported', span, span', heq, heq', hsuffix⟩
  rw [heq] at hwhole
  rw [heq'] at hpart
  have hspans : decl'.body.statements.map (·.span) <:+ decl.body.statements.map (·.span) := hsuffix.map _
  rw [show decl.body.statements.map (·.span) = [⟨9, 24⟩] from (List.cons.inj hwhole).1,
    show decl'.body.statements.map (·.span) = [⟨27, 35⟩] from (List.cons.inj hpart).1] at hspans
  exact absurd hspans (by decide)

end JuiceSyntax
