/-
  Nodes end at the braces that match theirs, also where a reading has to recover: one lemma for
  each production, by the rules for steps. Within braces a production consumes what is balanced,
  whether it fails or not; a record is only ever tried, so nothing is said of one that fails.

  `readItems_braces`: so do the nodes of every program whose faults are gentle, if every brace of
  its tokens is closed.
-/
import JuiceSyntax.Proofs.Grammar.Closing

namespace JuiceSyntax

open Reader Grammar

variable {setting : Setting} {doc : List Token} {L : Level} {p : Cursor → Prop} {α : Type}

/-- The readers of a level keep braces in pairs; only a record may leave them open when it fails.
A brace opens no type, and in front of a body no expression. -/
structure Level.Evenly (setting : Setting) (doc : List Token) (L : Level) : Prop where
  closed : BracesMatch doc
  takes : L.Takes
  expr : ∀ {p} position, JuiceSyntax.Evenly setting doc .nested L p [] (Reader.expr position) Expr.braces
  operand : ∀ {p} position, JuiceSyntax.Evenly setting doc .nested L p [] (Reader.operand position) Expr.braces
  block : ∀ {p}, JuiceSyntax.Evenly setting doc .nested L p [] Reader.block Block.braces
  type : ∀ {p}, JuiceSyntax.Evenly setting doc .nested L p [] Reader.type TypeExpr.braces
  record : ∀ {p}, JuiceSyntax.Evenly setting doc .tentative L p [] Reader.recordLiteral Expr.braces
  firm : Firm doc L Reader.block
  reads : ∀ {s e t}, Reader.expr .head L s = .ok e t → ReadsHead setting e s.cursor.rest t.cursor.rest
  head : ∀ {s e t}, s.cursor.kind = .mark .lBrace → Reader.expr .head L s ≠ .ok e t
  noType : ∀ {s}, s.cursor.kind = .mark .lBrace →
    ∃ fault t, Reader.type L s = .error fault t ∧ fault.Firm s.cursor.span

namespace Grammar

open Evenly

/-- A kind that means something else is no brace. -/
theorem isBrace_of_some {f : Kind → Option α} (hl : f (.mark .lBrace) = none) (hr : f (.mark .rBrace) = none)
    {kind : Kind} {a : α} (h : f kind = some a) : kind.isBrace = false := by
  cases hbrace : kind.isBrace with
  | false => rfl
  | true =>
    rw [Kind.isBrace, Bool.or_eq_true] at hbrace
    obtain hm | hm := hbrace
    · rw [eq_of_isMark hm, hl] at h
      cases h
    · rw [eq_of_isMark hm, hr] at h
      cases h

/-! ## Literals -/

theorem evenly_fragment (hL : L.Evenly setting doc) {tokens : List Token} (htokens : Stands doc tokens) (span : Span) :
    Evenly setting doc .nested L p [] (fragment tokens span) Expr.braces := by
  unfold fragment
  refine .ite (.throwThen _) (.withTokens htokens (.bind (hL.expr _) fun _ => .look .atEnd fun _ => ?_))
  exact .ite (.pure rfl) (.failAdvisedThen _ _)

theorem evenly_segments (hL : L.Evenly setting doc) {pieces : List Piece}
    (h : ∀ tokens span, .fragment tokens span ∈ pieces → Stands doc tokens) :
    Evenly setting doc .nested L p [] (segments pieces) segmentBraces := by
  induction pieces generalizing p with
  | nil => exact .pure rfl
  | cons piece rest ih =>
    have hrest {q : Cursor → Prop} := ih (p := q) fun tokens span hmem => h tokens span (List.mem_cons_of_mem _ hmem)
    cases piece with
    | text text span => exact .bind hrest fun _ => .pure rfl
    | escape value raw span => exact .bind hrest fun _ => .pure rfl
    | fragment tokens span =>
      exact .bind (evenly_fragment hL (h tokens span List.mem_cons_self) span) fun _ => .bind hrest fun _ => .pure rfl
    | indent span => exact hrest

/-- The fragments of a string that stands in the document do too. -/
theorem stands_of_string {c : Cursor} (hc : Stands doc c.rest) {multiline : Bool} {pieces : List Piece}
    (h : c.kind = .str multiline pieces) (tokens : List Token) (span : Span) (hmem : .fragment tokens span ∈ pieces) :
    Stands doc tokens := by
  cases hrest : c.rest with
  | nil => simp [Cursor.kind, Cursor.current, hrest] at h
  | cons token rest =>
    rw [hrest] at hc
    rw [Cursor.kind_of_rest hrest] at h
    exact (inherited_stands doc).kind hc multiline pieces h tokens span hmem

theorem evenly_stringLiteral (hL : L.Evenly setting doc) {multiline : Bool} {pieces : List Piece}
    (h : ∀ c, p c → c.kind = .str multiline pieces) :
    Evenly setting doc .nested L p [] (stringLiteral multiline pieces) Expr.braces := by
  have composed : Composed (fun _ => True) (stringLiteral multiline pieces) :=
    composed_stringLiteral fun _ _ _ _ _ _ => trivial
  refine .fixed (fun s => composed.grows inherited_true hL.takes.grows s trivial) fun c hc hstands => ?_
  exact .next (.advanceAt (fun c' hc' => hc' ▸ h c hc) rfl) fun _ =>
    .bind (evenly_segments hL (stands_of_string hstands (h c hc))) fun _ => .pure rfl

theorem evenly_listLiteral (hL : L.Evenly setting doc) : Evenly setting doc .nested L p [] listLiteral Expr.braces :=
  .next (.needMark _ rfl) fun _ => .bind (.separated _ (hL.expr _)) fun items => .next (.needMark _ rfl) fun _ =>
    .pure (exprBraces_eq_flatMap items)

theorem evenly_atom {kind : Kind} (h : ∀ c, p c → c.kind = kind) (hk : kind.isBrace = false) {content : ExprKind}
    (hcontent : ∀ span, content.braces span = []) : Evenly setting doc .nested L p [] (atom content) Expr.braces :=
  .next (.advanceAt h hk) fun _ => .pure (hcontent _)

/-- What can be a label is no brace, and neither is the colon after it. -/
theorem evenly_argLabel : Evenly setting doc .nested L p [] argLabel fun _ => [] := by
  refine .onKind fun kind => .onPeek 1 fun second => ?_
  have labeled {q : Cursor → Prop} {label : Option String} {kind : Kind}
      (hq : ∀ c, q c → c.kind = kind ∧ c.peek 1 = .mark .colon) (hk : kind.isBrace = false)
      (hdone : kind.isDone = false) :
      Evenly setting doc .nested L q [] (JuiceSyntax.skip 2 >>= fun _ => Pure.pure label) fun _ => [] := by
    refine .next (.skipTwo fun c hc => ?_) fun _ => .pure rfl
    rw [(hq c hc).1, (hq c hc).2]
    exact ⟨hk, hdone, rfl⟩
  split
  · rename_i label hlabel
    cases kind with
    | name text => exact labeled (fun c hc => ⟨hc.1.2, hc.2⟩) rfl rfl
    | typeName text => exact labeled (fun c hc => ⟨hc.1.2, hc.2⟩) rfl rfl
    | word w => exact labeled (fun c hc => ⟨hc.1.2, hc.2⟩) rfl rfl
    | _ => cases hlabel
  · exact .pure rfl

/-! ## Functions and parameters -/

theorem evenly_name : Evenly setting doc .nested L p [] name fun _ => [] := by
  refine .onKind fun kind => ?_
  split
  · exact .next (.advanceAt (fun _ hc => hc.2) rfl) fun _ => .pure rfl
  · exact .failUnexpected _

theorem evenly_anyName : Evenly setting doc .nested L p [] anyName fun _ => [] := by
  refine .onKind fun kind => ?_
  split
  · exact .next (.advanceAt (fun _ hc => hc.2) rfl) fun _ => .pure rfl
  · exact .next (.advanceAt (fun _ hc => hc.2) rfl) fun _ => .pure rfl
  · exact .failUnexpected _

theorem evenly_param (hL : L.Evenly setting doc) {named : Reader (String × Span)}
    (h : Evenly setting doc .nested L p [] named fun _ => []) :
    Evenly setting doc .nested L p [] (param named) Param.braces :=
  .next h fun _ => .next (.takeMark _ rfl) fun _ => .ite (.bind hL.type fun _ => .pure rfl) (.pure rfl)

theorem evenly_params (hL : L.Evenly setting doc) {named : Reader (String × Span)}
    (h : Evenly setting doc .nested L (fun _ => True) [] named fun _ => []) :
    Evenly setting doc .nested L p [] (params named) paramBraces :=
  .next (.needMark _ rfl) fun _ => .bind (.separated _ (evenly_param hL h)) fun items =>
    .next (.needMark _ rfl) fun _ => .pure (paramBraces_eq_flatMap items)

theorem evenly_fnName : Evenly setting doc .nested L p [] fnName fun _ => [] := by
  refine .onKind fun kind => ?_
  split
  · exact .next (.advanceAt (fun _ hc => hc.2) rfl) fun _ => .pure rfl
  · exact .next (.advanceAt (fun _ hc => hc.2) rfl) fun _ => .pure rfl
  · exact .pure rfl

theorem evenly_fnDecl (hL : L.Evenly setting doc) : Evenly setting doc .nested L p [] fnDecl FnDecl.braces :=
  .look .here fun _ => .next (.takeWord _) fun _ => .next (.needWord _) fun _ => .next evenly_fnName fun _ =>
    .look (.atMark _) fun _ => .iteBind (evenly_params hL evenly_name) (.pure rfl) fun _ =>
    .next (.takeMark _ rfl) fun _ =>
    .iteBind (v := optionalTypeBraces) (.map _ hL.type fun _ => rfl) (.pure rfl) fun _ =>
    .bind hL.block fun _ => .look (.spanFrom _) fun _ => .pure rfl

/-! ## Types -/

theorem evenly_typeArg (hL : L.Evenly setting doc) : Evenly setting doc .nested L p [] typeArg TypeArg.braces :=
  .look .here fun _ => .next evenly_argLabel fun _ => .bind hL.type fun _ => .pure rfl

theorem evenly_typeCall (hL : L.Evenly setting doc) (callee : String) (calleeSpan : Span) :
    Evenly setting doc .nested L p [] (typeCall callee calleeSpan) TypeExpr.braces :=
  .next (.needMark _ rfl) fun _ => .bind (.separated _ (evenly_typeArg hL)) fun args => .next (.needMark _ rfl) fun _ =>
    .pure (typeArgBraces_eq_flatMap args)

theorem evenly_typeParens (hL : L.Evenly setting doc) :
    Evenly setting doc .nested L p [] typeParens TypeExpr.braces := by
  unfold typeParens
  refine .next (.needMark _ rfl) fun _ => .look (.atMark _) fun _ => .ite (.failAdvisedThen _ _) ?_
  refine .bind hL.type fun first => .next (.takeMark _ rfl) fun _ => ?_
  refine .ite (.ifMark _ ?_ ?_) (.next (.needMark _ rfl) fun _ => .pure rfl)
  · exact .next (.advanceAt (fun _ hc => hc.2) rfl) fun _ => .next .record fun _ => .pure rfl
  · refine .bind (.separated _ hL.type) fun rest => .next (.needMark _ rfl) fun _ => .pure ?_
    exact congrArg (first.braces ++ ·) (typeBraces_eq_flatMap rest)

theorem evenly_typeOfName (hL : L.Evenly setting doc) {text : String} {kind : Kind} {content : TypeKind}
    (h : ∀ c, p c → c.kind = kind) (hk : kind.isBrace = false) (hcontent : content.braces = []) :
    Evenly setting doc .nested L p [] (typeOfName text content) TypeExpr.braces :=
  .next (.advanceAt h hk) fun _ => .look (.atMark _) fun _ => .ite (evenly_typeCall hL _ _) (.pure hcontent)

theorem evenly_literalType {literal : Reader Expr} (h : Evenly setting doc .nested L p [] literal Expr.braces) :
    Evenly setting doc .nested L p [] (literalType literal) TypeExpr.braces :=
  .bind h fun _ => .pure rfl

theorem evenly_typeAtom (hL : L.Evenly setting doc) : Evenly setting doc .nested L p [] typeAtom TypeExpr.braces := by
  refine .onKind fun kind => ?_
  split
  · refine evenly_typeOfName hL (fun _ hc => hc.2) rfl ?_
    cases BuiltinType.ofName? _ <;> rfl
  · exact evenly_typeOfName hL (fun _ hc => hc.2) rfl rfl
  · exact evenly_literalType (evenly_atom (fun _ hc => hc.2) rfl fun _ => rfl)
  · exact evenly_literalType (evenly_atom (fun _ hc => hc.2) rfl fun _ => rfl)
  · exact evenly_literalType (evenly_atom (fun _ hc => hc.2) rfl fun _ => rfl)
  · exact evenly_literalType (evenly_stringLiteral hL fun _ hc => hc.2)
  · exact evenly_literalType (evenly_listLiteral hL)
  · exact evenly_typeParens hL
  · exact .failUnexpected _

theorem evenly_typeRestUpTo (hL : L.Evenly setting doc) (left : TypeExpr) (fuel : Nat) :
    Evenly setting doc .nested L p left.braces (typeRestUpTo left fuel) TypeExpr.braces := by
  induction fuel generalizing left p with
  | zero => exact .pure rfl
  | succ fuel ih =>
    refine .onKind fun kind => ?_
    split
    · rename_i op hop
      exact .next (.advanceAt (fun _ hc => hc.2) (isBrace_of_some rfl rfl hop)) fun _ =>
        .bind (evenly_typeAtom hL) fun _ => (ih _).cast rfl
    · exact .pure rfl

theorem evenly_typeExpr (hL : L.Evenly setting doc) : Evenly setting doc .nested L p [] typeExpr TypeExpr.braces :=
  .bind (evenly_typeAtom hL) fun _ => .look .tokensLeft fun _ => evenly_typeRestUpTo hL _ _

/-! ## Arguments, macros and parentheses -/

theorem evenly_arg (hL : L.Evenly setting doc) : Evenly setting doc .nested L p [] arg Arg.braces :=
  .look .here fun _ => .next evenly_argLabel fun _ => .bind (hL.expr _) fun _ => .pure rfl

theorem evenly_args (hL : L.Evenly setting doc) :
    Evenly setting doc .nested L p [] args fun result => argBraces result.1 :=
  .next (.needMark _ rfl) fun _ => .bind (.separated _ (evenly_arg hL)) fun items => .next (.needMark _ rfl) fun _ =>
    .pure (argBraces_eq_flatMap items)

/-- A macro body is passed to the brace that closes it. -/
theorem macroBody_of_opens {s : State} {closing : Span} {inner after : List Token}
    (h : s.cursor.Opens doc closing inner after) :
    ∃ body t, macroBody L s = .ok body t ∧ body.span = s.cursor.span.cover closing ∧
      t.cursor = (s.cursor.advance.skip inner.length).advance := by
  have hbrace : s.cursor.kind.isMark .lBrace = true := by rw [h.kind]; rfl
  have hskip (s' : State) (n : Nat) : JuiceSyntax.skip n L s' = .ok () { s' with cursor := s'.cursor.skip n } := rfl
  have hend : (s.cursor.advance.skip inner.length).atEnd = false := by
    rw [Cursor.atEnd, Cursor.kind_of_rest h.rest_skip]
    rfl
  have hspan : (s.cursor.advance.skip inner.length).current.span = closing := Cursor.span_of_rest h.rest_skip
  have hlook (s' : State) : Reader.atEnd L s' = .ok s'.cursor.atEnd s' := rfl
  simp only [macroBody, bind_apply, needMark_apply, hbrace, if_true, Ending.andThen_ok, cursor_apply, hskip, hlook,
    h.innerLength, hend, choose_apply, Bool.false_eq_true, if_false, advance_apply, noteBody_apply, sourceText_apply,
    pure_apply, hspan]
  exact ⟨_, _, rfl, rfl, rfl⟩

theorem evenly_macroBody (hL : L.Evenly setting doc) :
    Evenly setting doc .nested L p [] macroBody fun body => [body.node] := by
  refine .ofGroup hL.closed (fun s => composed_macroBody.grows inherited_true hL.takes.grows s trivial)
    (fun s _ => needMark_or .lBrace _ s) fun hopens => ?_
  obtain ⟨body, t, hread, hspan, hcursor⟩ := macroBody_of_opens hopens
  exact ⟨body, t, hread, by rw [MacroBody.node, hspan], hcursor⟩

theorem evenly_macroCall (hL : L.Evenly setting doc) {text : String} (h : ∀ c, p c → c.kind = .macroName text)
    (position : Position) : Evenly setting doc .nested L p [] (macroCall text position) Expr.braces := by
  refine .next (.advanceAt h rfl) fun _ => .look (.atMark _) fun _ =>
    .iteBind (evenly_args hL) (.pure rfl) fun _ => .look (.atMark _) fun _ => .ite ?_ ?_
  · exact .bind (evenly_macroBody hL) fun _ => .pure rfl
  · exact .ite (.pure (List.append_nil _)) (.failUnexpected _)

theorem evenly_parens (hL : L.Evenly setting doc) : Evenly setting doc .nested L p [] parens Expr.braces := by
  unfold parens
  refine .next (.needMark _ rfl) fun _ => .look (.atMark _) fun _ => .ite (.failAdvisedThen _ _) ?_
  refine .bind (hL.expr _) fun first => .next (.takeMark _ rfl) fun _ => ?_
  refine .ite (.ifMark _ ?_ ?_) (.next (.needMark _ rfl) fun _ => .pure rfl)
  · exact .next (.advanceAt (fun _ hc => hc.2) rfl) fun _ => .next .record fun _ => .pure rfl
  · refine .bind (.separated _ (hL.expr _)) fun rest => .next (.needMark _ rfl) fun _ => .pure ?_
    exact congrArg (first.braces ++ ·) (exprBraces_eq_flatMap rest)

/-! ## Braces -/

theorem evenly_blockExpr (hL : L.Evenly setting doc) : Evenly setting doc .nested L p [] blockExpr Expr.braces :=
  .bind hL.block fun _ => .pure rfl

/-- What opens neither a record nor a block is passed to the brace that closes it. -/
theorem unresolvable_of_opens {s : State} {closing : Span} {inner after : List Token}
    (h : s.cursor.Opens doc closing inner after) :
    ∃ e t, unresolvable L s = .ok e t ∧ e.braces = [.group (s.cursor.span.cover closing)] ∧
      t.cursor = (s.cursor.advance.skip inner.length).advance := by
  have hend : (s.cursor.advance.skip inner.length).atEnd = false := by
    rw [Cursor.atEnd, Cursor.kind_of_rest h.rest_skip]
    rfl
  have hprevious : (s.cursor.advance.skip inner.length).advance.previous = closing := by
    rw [Cursor.previous, (Cursor.advance_of_mid hend).2.1, Cursor.span_of_rest h.rest_skip]
    rfl
  have hskip (s' : State) (n : Nat) : JuiceSyntax.skip n L s' = .ok () { s' with cursor := s'.cursor.skip n } := rfl
  have hhere (s' : State) : Reader.here L s' = .ok s'.cursor.span s' := rfl
  simp only [unresolvable, bind_apply, hhere, Ending.andThen_ok, cursor_apply, hskip, h.skip_groupLength,
    spanFrom_apply, hprevious, record_apply, pure_apply]
  exact ⟨_, _, rfl, rfl, cursor_withFault _ _ _⟩

theorem evenly_unresolvable (hL : L.Evenly setting doc) (hp : ∀ c, p c → c.kind = .mark .lBrace) :
    Evenly setting doc .nested L p [] unresolvable Expr.braces :=
  .ofGroup hL.closed (fun s => composed_unresolvable.grows inherited_true hL.takes.grows s trivial)
    (fun s hs => .inl (hp s.cursor hs)) unresolvable_of_opens

theorem evenly_tryRecord_else (hL : L.Evenly setting doc) {otherwise : Reader Expr}
    (h : Evenly setting doc .nested L p [] otherwise Expr.braces) :
    Evenly setting doc .nested L p [] (do
      if let some e ← tryRecord then
        return e
      otherwise) Expr.braces :=
  .tryBraceElse hL.record h

theorem evenly_tryBlock_else (hL : L.Evenly setting doc) {otherwise : Reader Expr}
    (h : Evenly setting doc .nested L p [] otherwise Expr.braces) :
    Evenly setting doc .nested L p [] (do
      if let some e ← tryBlock then
        return e
      otherwise) Expr.braces :=
  .tryBraceElse (evenly_blockExpr hL).widen h

theorem evenly_braceValue (hL : L.Evenly setting doc) (hp : ∀ c, p c → c.kind = .mark .lBrace) :
    Evenly setting doc .nested L p [] braceValue Expr.braces := by
  refine .look .cursor fun _ => .ite ?_ (evenly_blockExpr hL)
  exact evenly_tryRecord_else hL (evenly_tryBlock_else hL (evenly_unresolvable hL hp))

theorem evenly_armBody (hL : L.Evenly setting doc) : Evenly setting doc .nested L p [] armBody Expr.braces := by
  refine .ifMark _ ?_ (.failThen _)
  refine evenly_tryBlock_else hL (.look .cursor fun _ => .ite ?_ (evenly_blockExpr hL))
  exact evenly_tryRecord_else hL (evenly_unresolvable hL fun _ hc => hc.2)

/-! ## Control flow -/

def Branch.braces (branch : Branch) : List BraceNode := branch.test.braces ++ branch.body.braces

theorem braces_toExpr (branch : Branch) (otherwise : Option Expr) :
    (branch.toExpr otherwise).braces = branch.braces ++ optionalExprBraces otherwise := rfl

theorem evenly_branch (hL : L.Evenly setting doc) : Evenly setting doc .nested L p [] branch Branch.braces :=
  .next (.needWord _) fun _ => .bind (hL.expr _) fun _ => .bind hL.block fun _ => .pure rfl

theorem evenly_elseBranchesUpTo (hL : L.Evenly setting doc) (fuel : Nat) :
    Evenly setting doc .nested L p [] (elseBranchesUpTo fuel) fun result =>
      result.1.flatMap Branch.braces ++ optionalExprBraces result.2 := by
  induction fuel generalizing p with
  | zero => exact .pure rfl
  | succ fuel ih =>
    refine .next (.takeWord _) fun _ => .ite (.look .kind fun _ => .ite ?_ ?_) (.pure rfl)
    · exact .bind (evenly_branch hL) fun _ => .bind ih fun _ => .pure (List.append_assoc _ _ _)
    · exact .bind (evenly_blockExpr hL) fun _ => .pure rfl

/-- Branches folded into one conditional keep their order. -/
theorem optionalExprBraces_foldr (branches : List Branch) (last : Option Expr) :
    optionalExprBraces (branches.foldr (fun b otherwise => some (b.toExpr otherwise)) last) =
      branches.flatMap Branch.braces ++ optionalExprBraces last := by
  induction branches with
  | nil => rfl
  | cons branch rest ih =>
    rw [List.foldr_cons, optionalExprBraces, braces_toExpr, ih, List.flatMap_cons, List.append_assoc]

theorem evenly_conditional (hL : L.Evenly setting doc) : Evenly setting doc .nested L p [] conditional Expr.braces :=
  .bind (evenly_branch hL) fun first => .look .tokensLeft fun _ => .bind (evenly_elseBranchesUpTo hL _) fun others =>
    .pure (congrArg (first.braces ++ ·) (optionalExprBraces_foldr others.1 others.2))

/-- What a pattern tries first: a value up to the arrow. -/
theorem evenly_patternValue (hL : L.Evenly setting doc) :
    Evenly setting doc .nested L p [] (do
      let value ← expr .head
      unless ← Reader.atMark .arrow do
        Reader.failUnexpected (.mark .arrow)
      return value) Expr.braces :=
  .bind (hL.expr _) fun _ => .look (.atMark _) fun _ => .ite (.pure rfl) (.failThen _)

theorem evenly_pattern (hL : L.Evenly setting doc) : Evenly setting doc .nested L p [] pattern Pattern.braces := by
  refine .bind (.speculate (evenly_patternValue hL).widen) fun found => ?_
  cases found with
  | some value => exact .pure rfl
  | none => exact .bind hL.type fun _ => .pure rfl

theorem evenly_arm (hL : L.Evenly setting doc) : Evenly setting doc .nested L p [] arm Arm.braces :=
  .bind (evenly_pattern hL) fun _ => .next (.needMark _ rfl) fun _ => .bind (evenly_armBody hL) fun _ => .pure rfl

theorem pattern_of_brace (hL : L.Evenly setting doc) {s : State} (hkind : s.cursor.kind = .mark .lBrace) :
    ∃ fault t, pattern L s = .error fault t ∧ fault.Firm s.cursor.span := by
  rw [pattern, bind_apply, speculate_apply]
  obtain ⟨fault, hfatal, heq⟩ | ⟨value, t, hread, -, -⟩ | heq := speculated_cases s _
  · rw [heq]
    exact ⟨fault, _, rfl, .inl hfatal⟩
  · obtain ⟨e, u, hexpr, -⟩ := ok_of_bind hread
    exact absurd hexpr (hL.head hkind)
  · generalize hrewound : s.rewind _ = u at heq
    have hcursor : u.cursor = s.cursor := hrewound ▸ rfl
    obtain ⟨fault, t, htype, hfault⟩ := hL.noType (hcursor ▸ hkind)
    rw [hcursor] at hfault
    rw [heq, Ending.andThen_ok]
    dsimp only
    rw [bind_apply, htype]
    exact ⟨fault, t, rfl, hfault⟩

theorem firm_arm (hL : L.Evenly setting doc) : Firm doc L arm := by
  intro s fault t hkind _ hr _
  obtain ⟨fault', t', hpattern, hfault⟩ := pattern_of_brace hL hkind
  rw [arm, bind_apply, hpattern] at hr
  cases hr
  exact hfault

/-- What ends the arms. -/
def armsEnd (start : Span) (scrutinee : Expr) (_opening : Span) (arms : List Arm) : Reader Expr := do
  let closing ← needMark .rBrace
  return ⟨.selection scrutinee arms, start.cover closing⟩

theorem braced_arms (hL : L.Evenly setting doc) (start : Span) (scrutinee : Expr) :
    Braced setting doc L .arm arm (armsEnd start scrutinee) Arm.braces
      fun _ closing arms => ⟨.selection scrutinee arms, start.cover closing⟩ where
  evenly := evenly_arm hL
  takes := takes_arm hL.takes.grows
  firm := firm_arm hL
  resume := rfl
  grows opening arms s := by
    have composed : Composed (fun _ => True) (armsEnd start scrutinee opening arms) :=
      .bind (.needMark _) fun _ => .pure _
    exact composed.grows inherited_true hL.takes.grows s trivial
  finish opening arms s hkind := by
    rw [armsEnd, bind_apply, needMark_apply, if_pos (by rw [hkind]; rfl)]
    rfl

/-- The word and what follows it are a place, and what follows it comes later. -/
theorem place_of_needWord {w : Keyword} {s t : State} {start : Span} (hs : Stands doc s.cursor.rest)
    (hr : needWord w L s = .ok start t) :
    ⟨.word w, start⟩ :: t.cursor.rest ∈ places doc ∧ start.start ≤ start.stop ∧ Late start.stop t.cursor.rest := by
  rw [needWord_apply] at hr
  split at hr
  · rename_i hword
    cases hr
    obtain ⟨hplace, lo, hi, hlaid⟩ := hs
    cases hrest : s.cursor.rest with
    | nil => exact absurd hrest hlaid.ne_nil
    | cons token rest =>
      have hkind := eq_of_isWord hword
      rw [Cursor.kind_of_rest hrest] at hkind
      rw [Cursor.span_of_rest hrest, Cursor.rest_advance_of_rest hrest (by rw [hkind]; rfl), ← hkind]
      rw [hrest] at hplace hlaid
      cases hlaid with
      | done after before => cases hkind
      | cons mid after wide inner following =>
        cases token
        exact ⟨hplace, Nat.le_of_lt wide, hi, following⟩
  · cases hr

theorem evenly_selection (hL : L.Evenly setting doc) : Evenly setting doc .nested L p [] selection Expr.braces := by
  refine .bindTo (q := fun start c => ⟨.word .matchWord, start⟩ :: c.rest ∈ places doc ∧ start.start ≤ start.stop ∧
    Late start.stop c.rest) (.needWord _) (fun _ hs hr => place_of_needWord hs hr) fun start => ?_
  refine .bindTo (q := fun e c => ∃ head, ⟨.word .matchWord, start⟩ :: head ∈ places doc ∧
    ReadsHead setting e head c.rest ∧ start.start ≤ start.stop ∧ Late start.stop c.rest) (hL.expr .head)
    (fun {s e t} ⟨hplace, hle, hlate⟩ _ hr => ?_) fun scrutinee => ?_
  · have hgrows := (hL.expr (p := fun _ => True) .head).grows s
    rw [hr] at hgrows
    exact ⟨s.cursor.rest, hplace, hL.reads hr, hle, (inherited_late start.stop).grows hgrows hlate⟩
  refine (braced_arms hL start scrutinee).evenly_inBraces hL.closed fun {c closing arms} hp _ hmatched hpre hfit => ?_
  obtain ⟨head, hplace, hreads, hle, hi, hlaid⟩ := hp
  obtain ⟨hafter, hopening, hbetween, hclosing⟩ := hlaid.matched hmatched
  refine List.forall_mem_cons.2 ⟨⟨start, head, c.rest, hplace, hreads, _, _, hmatched, ?_⟩, ?_⟩
  · exact Span.cover_eq (by omega) (by omega)
  · refine List.forall_mem_append.2 ⟨hpre, ?_⟩
    rw [armBraces_eq_flatMap]
    exact hfit

/-! ## Operands and chains -/

theorem evenly_primary (hL : L.Evenly setting doc) (position : Position) :
    Evenly setting doc .nested L p [] (primary position) Expr.braces := by
  refine .onKind fun kind => ?_
  split
  · exact evenly_atom (fun _ hc => hc.2) rfl fun _ => rfl
  · exact evenly_atom (fun _ hc => hc.2) rfl fun _ => rfl
  · exact evenly_atom (fun _ hc => hc.2) rfl fun _ => rfl
  · exact evenly_atom (fun _ hc => hc.2) rfl fun _ => rfl
  · exact evenly_atom (fun _ hc => hc.2) rfl fun _ => rfl
  · exact evenly_stringLiteral hL fun _ hc => hc.2
  · exact evenly_macroCall hL (fun _ hc => hc.2) _
  · exact evenly_listLiteral hL
  · exact evenly_parens hL
  · cases position with
    | statement => exact evenly_blockExpr hL
    | value => exact evenly_braceValue hL fun _ hc => hc.2
    | head => exact .failUnexpected _
  · exact .bind (evenly_fnDecl hL) fun _ => .pure rfl
  · exact .bind (evenly_fnDecl hL) fun _ => .pure rfl
  · exact evenly_conditional hL
  · exact evenly_selection hL
  · exact .look .here fun _ => .throw
  · exact .look .here fun _ => .throw
  · exact .failUnexpected _

theorem evenly_accessesUpTo (hL : L.Evenly setting doc) (position : Position) (base : Expr) (fuel : Nat) :
    Evenly setting doc .nested L p base.braces (accessesUpTo position base fuel) Expr.braces := by
  induction fuel generalizing base p with
  | zero => exact .pure rfl
  | succ fuel ih =>
    exact .next (.takeMark _ rfl) fun _ => .ite (.bind (evenly_primary hL _) fun _ => (ih _).cast rfl) (.pure rfl)

theorem evenly_onceAttempted (e : Expr) {next : Unit → Reader Expr}
    (h : Evenly setting doc .nested L p e.braces (next ()) Expr.braces) :
    Evenly setting doc .nested L p e.braces (onceAttempted e next) Expr.braces := by
  unfold onceAttempted
  split
  · exact .failAdvisedThen _ _
  · exact h

theorem evenly_attemptOf {e : Expr} (h : ∀ c, p c → c.kind = .mark .question) :
    Evenly setting doc .nested L p e.braces (attemptOf e) Expr.braces :=
  evenly_onceAttempted e (.ite (.next (.advanceAt h rfl) fun _ => .pure rfl) (.failAdvisedThen _ _))

theorem evenly_postfixUpTo (hL : L.Evenly setting doc) (position : Position) (e : Expr) (fuel : Nat) :
    Evenly setting doc .nested L p e.braces (postfixUpTo position e fuel) Expr.braces := by
  induction fuel generalizing e p with
  | zero => exact .pure rfl
  | succ fuel ih =>
    refine .onKind fun kind => ?_
    split
    · exact .bind (evenly_args hL) fun _ => (ih _).cast rfl
    · refine .next (.advanceAt (fun _ hc => hc.2) rfl) fun _ => .bind (evenly_primary hL _) fun first =>
        .look .tokensLeft fun _ => ?_
      exact (evenly_accessesUpTo hL _ _ _).extend fun member => (ih _).cast rfl
    · exact .next (.advanceAt (fun _ hc => hc.2) rfl) fun _ => .bind (evenly_primary hL _) fun _ => (ih _).cast rfl
    · change Evenly setting doc _ L _ ([] ++ e.braces) _ _
      exact (evenly_attemptOf fun _ hc => hc.2).extend fun inner => ih inner
    · exact .pure rfl

theorem evenly_postfixExpr (hL : L.Evenly setting doc) (position : Position) :
    Evenly setting doc .nested L p [] (postfixExpr position) Expr.braces :=
  .bind (evenly_primary hL _) fun _ => .look .tokensLeft fun _ => evenly_postfixUpTo hL _ _ _

theorem evenly_unaryExpr (hL : L.Evenly setting doc) (position : Position) :
    Evenly setting doc .nested L p [] (unaryExpr position) Expr.braces := by
  refine .onKind fun kind => ?_
  split
  · rename_i op hop
    exact .next (.advanceAt (fun _ hc => hc.2) (isBrace_of_some rfl rfl hop)) fun _ =>
      .bind (hL.operand _) fun inner => .pure rfl
  · exact evenly_postfixExpr hL _

theorem evenly_chainUpTo (hL : L.Evenly setting doc) (level : Nat) (position : Position) (fuel : Nat) :
    Evenly setting doc .nested L p [] (chainUpTo level position fuel)
      fun rest => rest.flatMap fun link => link.2.braces := by
  induction fuel generalizing p with
  | zero => exact .pure rfl
  | succ fuel ih =>
    refine .onKind fun kind => ?_
    split
    · rename_i op hop
      have hkind := isBrace_of_some (f := BinaryOp.ofKind?) rfl rfl (Option.filter_eq_some_iff.1 hop).1
      exact .next (.advanceAt (fun _ hc => hc.2) hkind) fun _ => .bind (evenly_unaryExpr hL _) fun _ =>
        .bind ih fun _ => .pure rfl
    · exact .pure rfl

/-- Joining an operand to those that wait for it keeps the order. -/
theorem braces_settle (level : Nat) (waiting : List (Expr × BinaryOp)) (right : Expr) :
    ((settle level waiting right).1.reverse.flatMap fun w => w.1.braces) ++ (settle level waiting right).2.braces =
      (waiting.reverse.flatMap fun w => w.1.braces) ++ right.braces := by
  induction waiting generalizing right with
  | nil => rfl
  | cons w waiting ih =>
    unfold settle
    split
    · rw [ih]
      simp [binaryExpr, Expr.braces, ExprKind.braces]
    · rfl

theorem braces_climb (waiting : List (Expr × BinaryOp)) (last : Expr) (rest : List (BinaryOp × Expr)) :
    (climb waiting last rest).braces =
      (waiting.reverse.flatMap fun w => w.1.braces) ++ last.braces ++ rest.flatMap fun link => link.2.braces := by
  induction rest generalizing waiting last with
  | nil =>
    have h := braces_settle 0 waiting last
    rw [settle_zero] at h
    rw [climb, List.flatMap_nil, List.append_nil]
    exact h
  | cons next rest ih =>
    obtain ⟨op, e⟩ := next
    have h := braces_settle op.level waiting last
    simp only [climb]
    rw [ih, List.reverse_cons, List.flatMap_append, List.flatMap_cons, ← h]
    simp

theorem evenly_chain (hL : L.Evenly setting doc) (level : Nat) (position : Position) :
    Evenly setting doc .nested L p [] (chain level position) Expr.braces :=
  .bind (evenly_unaryExpr hL _) fun first => .look .tokensLeft fun _ => .bind (evenly_chainUpTo hL _ _ _) fun rest =>
    .pure (braces_climb [] first rest)

/-- In front of a body a brace is no part of an expression. -/
theorem chain_of_brace {s : State} (hkind : s.cursor.kind = .mark .lBrace) (level : Nat) :
    ∃ fault, chain level .head L s = .error fault s := by
  have hlook : Reader.kind L s = .ok (.mark .lBrace) s := by rw [← hkind]; rfl
  have hprimary : primary .head L s = failUnexpected .expression L s := by
    rw [primary, bind_apply, hlook]
    rfl
  have hunary : unaryExpr .head L s = failUnexpected .expression L s := by
    rw [unaryExpr, bind_apply, hlook]
    change postfixExpr .head L s = _
    rw [postfixExpr, bind_apply, hprimary]
    rfl
  rw [chain, bind_apply, hunary]
  exact ⟨_, rfl⟩

/-! ## Records -/

theorem evenly_fieldEnd (field : RecordField) :
    Evenly setting doc .nested L p field.braces (fieldEnd field) RecordField.braces := by
  refine .next (.takeMark _ rfl) fun _ => .ite (.pure rfl) (.look .kind fun _ => ?_)
  split
  · exact .pure rfl
  · exact .pure rfl
  · exact .failThen _

theorem evenly_recordField (hL : L.Evenly setting doc) :
    Evenly setting doc .nested L p [] recordField RecordField.braces := by
  refine .next evenly_name fun _ => .next (.takeMark _ rfl) fun _ => ?_
  exact .ite (.bind (hL.expr _) fun _ => .known ((evenly_fieldEnd _).cast rfl)) (.known ((evenly_fieldEnd _).cast rfl))

/-- The fields of a record are read to the brace that closes it. -/
theorem recordFields_closes (hL : L.Evenly setting doc) {fuel : Nat} {s t : State} {fields : List RecordField}
    {inner after : List Token} {close : Token} (hwithin : s.cursor.Within inner close after)
    (hs : Stands doc s.cursor.rest) (hfuel : s.cursor.left ≤ fuel)
    (hr : recordFieldsUpTo fuel L s = .ok fields t) (ht : t.Calm) :
    t.cursor.rest = close :: after ∧ AllFit setting doc (fields.flatMap RecordField.braces) := by
  induction fuel generalizing s fields inner with
  | zero =>
    have hend := Cursor.atEnd_of_left (Nat.le_zero.1 hfuel)
    exact absurd (hwithin.atEnd.symm.trans hend) (by decide)
  | succ fuel ih =>
    rw [recordFieldsUpTo, bind_apply, atMark_apply, Ending.andThen_ok] at hr
    split at hr
    · rename_i hclose
      cases hr
      rw [hwithin.rest, hwithin.eq_nil hclose]
      exact ⟨rfl, allFit_nil⟩
    · obtain ⟨first, u, hfirst, hr⟩ := ok_of_bind hr
      obtain ⟨rest, v, hrest, hr⟩ := ok_of_bind hr
      cases hr
      have hfield := evenly_recordField (p := fun _ => True) hL
      have hgrows := hfield.grows s
      rw [hfirst] at hgrows
      have hloop := (composed_recordFieldsUpTo fuel).grows inherited_true hL.takes.grows u trivial
      rw [hrest] at hloop
      obtain ⟨heven, hfit⟩ := hfield.ok trivial hs hfirst (hloop.calm ht)
      obtain ⟨inner', hwithin'⟩ := hwithin.even heven
      have hlt := takes_recordField hL.takes.grows s first u hfirst
      obtain ⟨hclose, hrestfit⟩ := ih hwithin' (hgrows.stands hs) (by omega) hrest
      rw [List.flatMap_cons]
      exact ⟨hclose, (hfit allFit_nil).append hrestfit⟩

theorem evenly_recordExpr (hL : L.Evenly setting doc) :
    Evenly setting doc .tentative L p [] recordExpr Expr.braces := by
  refine ⟨fun s => composed_recordExpr.grows inherited_true hL.takes.grows s trivial, fun {s e t} _ hs hr ht => ?_,
    fun _ _ _ _ _ => trivial⟩
  obtain ⟨opening, u, hopening, hr⟩ := ok_of_bind hr
  obtain ⟨left, u', hleft, hr⟩ := ok_of_bind hr
  cases hleft
  obtain ⟨fields, v, hfields, hr⟩ := ok_of_bind hr
  cases hr
  rw [needMark_apply] at hopening
  split at hopening
  · rename_i hbrace
    cases hopening
    obtain ⟨closing, inner, after, hopens⟩ := Cursor.opens hL.closed (eq_of_isMark hbrace) hs
    obtain ⟨hclose, hfit⟩ :=
      recordFields_closes hL hopens.within ((Grows.skip s 1).stands hs) (Nat.le_refl _) hfields ⟨ht.goes, ht.faults⟩
    have hspan : v.cursor.current.span = closing := Cursor.span_of_rest hclose
    refine ⟨hopens.even hclose, fun _ => List.forall_mem_cons.2 ⟨?_, ?_⟩⟩
    · rw [hspan]
      exact BraceNode.fits_group hopens.place hopens.matched
    · rw [recordFieldBraces_eq_flatMap]
      exact hfit
  · cases hopening

/-! ## Statements and blocks -/

def Binding.braces (binding : Binding) : List BraceNode :=
  optionalTypeBraces binding.type ++ binding.value.braces

theorem evenly_binding (hL : L.Evenly setting doc) : Evenly setting doc .nested L p [] binding Binding.braces := by
  refine .next evenly_name fun _ => .next (.takeMark _ rfl) fun _ => .ite ?_ ?_
  · exact .bind hL.type fun _ => .next (.takeMark _ rfl) fun _ => .ite
      (.known (.bind (hL.expr _) fun _ => .pure rfl)) (.failThen _)
  · exact .next (.needMark _ rfl) fun _ => .known (.bind (hL.expr _) fun _ => .pure rfl)

theorem evenly_assignment (hL : L.Evenly setting doc) :
    Evenly setting doc .nested L p [] assignment fun binding => binding.value.braces :=
  .next evenly_name fun _ => .next (.needMark _ rfl) fun _ => .bind (hL.expr _) fun _ => .pure rfl

theorem evenly_loop (hL : L.Evenly setting doc) : Evenly setting doc .nested L p [] loop StatementKind.braces := by
  unfold loop
  refine .next (.needWord _) fun _ => .look (.atMark _) fun _ => .ite (.bind hL.block fun _ => .pure rfl) ?_
  have ranged {q : Cursor → Prop} (element : Option String) : Evenly setting doc .nested L q [] (do
      let first ← expr .head
      let range ← if ← Reader.takeMark .dotDot then .between first <$> expr .head else pure (.over first)
      return StatementKind.loop element range (← block)) StatementKind.braces := by
    refine .bind (hL.expr _) fun first => .next (.takeMark _ rfl) fun _ => .ite ?_ ?_
    · have between : Evenly setting doc .nested L (fun _ => True) first.braces (LoopRange.between first <$> expr .head)
          LoopRange.braces := .map _ (hL.expr _) fun _ => rfl
      exact between.extend fun _ => .bind hL.block fun _ => .pure rfl
    · exact .known (.bind hL.block fun _ => .pure rfl)
  refine .onKind fun kind => .onPeek 1 fun second => ?_
  split
  · refine .next (.skipTwo fun c hc => ?_) fun _ => .known (ranged _)
    rw [hc.1.2, hc.2]
    exact ⟨rfl, rfl, rfl⟩
  · exact .known (ranged none)

theorem evenly_leave (hL : L.Evenly setting doc) (h : ∀ c, p c → c.kind = .word .returnWord) :
    Evenly setting doc .nested L p [] leave StatementKind.braces :=
  .next (.advanceAt h rfl) fun _ => .look .cursor fun _ => .ite (.bind (hL.expr _) fun _ => .pure rfl) (.pure rfl)

theorem evenly_statementKind (hL : L.Evenly setting doc) :
    Evenly setting doc .nested L p [] statementKind StatementKind.braces := by
  refine .onKind fun kind => ?_
  split
  · exact evenly_leave hL fun _ hc => hc.2
  · exact .next (.advanceAt (fun _ hc => hc.2) rfl) fun _ => .pure rfl
  · exact .next (.advanceAt (fun _ hc => hc.2) rfl) fun _ => .pure rfl
  · exact evenly_loop hL
  · exact .bind (evenly_fnDecl hL) fun _ => .pure rfl
  · exact .bind (evenly_fnDecl hL) fun _ => .pure rfl
  · exact .bind hL.block fun _ => .pure rfl
  · exact .look .here fun _ => .throw
  · exact .look .here fun _ => .throw
  · exact .failAdvised _ _
  · exact .failAdvised _ _
  · exact .failAdvised _ _
  · exact .failAdvised _ _
  · exact .failAdvised _ _
  · refine .look .cursor fun _ => .ite (.bind (evenly_binding hL) fun _ => .pure rfl) ?_
    exact .ite (.bind (evenly_assignment hL) fun _ => .pure rfl) (.bind (hL.expr _) fun _ => .pure rfl)
  · exact .look (.peek 1) fun _ => .ite (.failAdvised _ _) (.bind (hL.expr _) fun _ => .pure rfl)
  · exact .bind (hL.expr _) fun _ => .pure rfl

theorem evenly_statement (hL : L.Evenly setting doc) :
    Evenly setting doc .nested L p [] statement Statement.braces :=
  .look .here fun _ => .bind (evenly_statementKind hL) fun _ => .look (.spanFrom _) fun _ => .pure rfl

/-- A statement that begins with a brace is a block. -/
theorem statement_of_brace {s t : State} {fault : Fault} (hkind : s.cursor.kind = .mark .lBrace)
    (hr : statement L s = .error fault t) : Reader.block L s = .error fault t := by
  have hlook : Reader.kind L s = .ok (.mark .lBrace) s := by rw [← hkind]; rfl
  have hcontent : statementKind L s = Ending.andThen (Reader.block L s) fun block u => .ok (.block block) u := by
    rw [statementKind, bind_apply, hlook]
    change (Reader.block >>= fun block => Pure.pure (StatementKind.block block)) L s = _
    rw [bind_apply]
    rfl
  have hhere : Reader.here L s = .ok s.cursor.span s := rfl
  rw [statement, bind_apply, hhere, Ending.andThen_ok, bind_apply, hcontent] at hr
  cases hblock : Reader.block L s with
  | error fault' t' =>
    rw [hblock] at hr
    cases hr
    rfl
  | ok block t' =>
    rw [hblock] at hr
    cases hr

theorem firm_statement (hL : L.Evenly setting doc) : Firm doc L statement :=
  fun hkind hs hr ht => hL.firm hkind hs (statement_of_brace hkind hr) ht

/-- At a closing brace the block ends. -/
theorem blockEnd_of_closing {opening : Span} {statements : List Statement} {s : State} (h : s.cursor.kind = .mark .rBrace) :
    blockEnd opening statements L s =
      .ok ⟨statements, opening.cover s.cursor.span⟩ { s with cursor := s.cursor.advance } := by
  have hclose : s.cursor.kind.isMark .rBrace = true := by rw [h]; rfl
  simp only [blockEnd, bind_apply, atMark_apply, Ending.andThen_ok, hclose, if_true, advance_apply, pure_apply]
  rfl

theorem braced_statements (hL : L.Evenly setting doc) :
    Braced setting doc L .statement statement blockEnd Statement.braces
      fun opening closing statements => ⟨statements, opening.cover closing⟩ where
  evenly := evenly_statement hL
  takes := takes_statement hL.takes
  firm := firm_statement hL
  resume := rfl
  grows opening statements s := (composed_blockEnd opening statements).grows inherited_true hL.takes.grows s trivial
  finish _ _ _ hkind := blockEnd_of_closing hkind

theorem evenly_blockBody (hL : L.Evenly setting doc) : Evenly setting doc .nested L p [] blockBody Block.braces := by
  refine (braced_statements hL).evenly_inBraces hL.closed fun {c closing statements} _ hs hmatched _ hfit => ?_
  refine List.forall_mem_cons.2 ⟨BraceNode.fits_group hs hmatched, ?_⟩
  rw [statementBraces_eq_flatMap]
  exact hfit

theorem firm_blockBody (hL : L.Evenly setting doc) : Firm doc L blockBody :=
  (braced_statements hL).firm_inBraces hL.closed

/-- A brace begins no type. -/
theorem typeExpr_of_brace {s : State} (hkind : s.cursor.kind = .mark .lBrace) :
    typeExpr L s = .error (.ofCause s.cursor.span (.unexpected .type (.mark .lBrace) none)) s := by
  have hlook : Reader.kind L s = .ok (.mark .lBrace) s := by rw [← hkind]; rfl
  have hatom : typeAtom L s = failUnexpected .type L s := by
    rw [typeAtom, bind_apply, hlook]
    rfl
  rw [typeExpr, bind_apply, hatom, ← hkind]
  rfl

/-! ## Items -/

theorem evenly_importDecl (hL : L.Evenly setting doc) :
    Evenly setting doc .program L p [] importDecl fun _ => [] :=
  .quiet composed_importDecl hL.takes.grows

def Member.braces : Member → List BraceNode
  | .field f => f.braces
  | .constructor c => c.braces

theorem evenly_member (hL : L.Evenly setting doc) : Evenly setting doc .program L p [] member Member.braces := by
  have hgrows := hL.takes.grows
  refine .look .cursor fun c => ?_
  dsimp only
  split
  · exact .next (.quiet (.skip 2) hgrows) fun _ => .bind hL.type.widen fun _ => .pure rfl
  · exact .next (.quiet (.skip 2) hgrows) fun _ => .bind hL.type.widen fun _ => .pure rfl
  · exact .next (.quiet .advance hgrows) fun _ => .look (.atMark _) fun _ =>
      .iteBind (evenly_params hL evenly_name).widen (.pure rfl) fun _ => .look (.spanFrom _) fun _ => .pure rfl
  · exact .failAdvised _ _

def optionalBodyBraces : Option TypeBody → List BraceNode
  | none => []
  | some body => body.braces

/-- A member that does not fit is left out. -/
theorem evenly_addMember {body : Option TypeBody} (h : OfMembers body) (member : Member) :
    Evenly setting doc .program L p (optionalBodyBraces body ++ member.braces) (addMember body member)
      optionalBodyBraces := by
  have added (fs : List Field) (f : Field) :
      (TypeBody.fields (fs ++ [f])).braces = (TypeBody.fields fs).braces ++ f.braces := by
    simp [TypeBody.braces]
  have added' (cs : List Constructor) (c : Constructor) :
      (TypeBody.constructors (cs ++ [c])).braces = (TypeBody.constructors cs).braces ++ c.braces := by
    simp [TypeBody.braces]
  have kept {fault : Fault} (body : TypeBody) (others : List BraceNode) :
      Evenly setting doc .program L p (optionalBodyBraces (some body) ++ others)
        (record fault >>= fun _ => Pure.pure (some body)) optionalBodyBraces :=
    .next .record fun _ => .ofSubset (.pure rfl) (List.subset_append_left _ _)
  cases body with
  | none =>
    cases member with
    | field f => exact .pure (added [] f)
    | constructor c => exact .pure (added' [] c)
  | some body =>
    cases body with
    | synonym type => exact absurd rfl (h type)
    | fields fs =>
      cases member with
      | field f => exact .pure (added fs f)
      | constructor c => exact kept _ _
    | constructors cs =>
      cases member with
      | field f => exact kept _ _
      | constructor c => exact .pure (added' cs c)

theorem evenly_membersUpTo (hL : L.Evenly setting doc) {body : Option TypeBody} (h : OfMembers body) (fuel : Nat) :
    Evenly setting doc .program L p (optionalBodyBraces body) (membersUpTo body fuel) optionalBodyBraces := by
  induction fuel generalizing body p with
  | zero => exact .pure rfl
  | succ fuel ih =>
    refine .look (.atMark _) fun _ => .ite (.pure rfl) (.bind (evenly_member hL) fun member => ?_)
    change Evenly setting doc _ L _ ([] ++ _) _ _
    exact (evenly_addMember h member).extendOf (q := fun _ _ => True) (fun _ _ _ => trivial) fun body' s t hr =>
      .next (.takeMark .comma rfl) fun _ => ih (addMember_ofMembers hr)

theorem evenly_members (hL : L.Evenly setting doc) : Evenly setting doc .program L p [] members TypeBody.braces := by
  refine .next (.needMark _ rfl) fun _ => .look .tokensLeft fun _ => ?_
  refine .bind ((evenly_membersUpTo hL ofMembers_none _).cast rfl) fun body => .next (.needMark _ rfl) fun _ => .pure ?_
  cases body <;> rfl

theorem evenly_typeDecl (hL : L.Evenly setting doc) : Evenly setting doc .program L p [] typeDecl TypeDecl.braces :=
  .next (.takeWord _) fun _ => .next (.quiet (composed_declaredType _) hL.takes.grows) fun _ =>
    .look (.atMark _) fun _ => .iteBind (evenly_params hL evenly_anyName).widen (.pure rfl) fun _ =>
    .next (.needMark _ rfl) fun _ => .look (.atMark _) fun _ =>
    .iteBind (evenly_members hL) (.map _ hL.type.widen fun _ => rfl) fun _ => .pure rfl

theorem evenly_implFn (hL : L.Evenly setting doc) : Evenly setting doc .program L p [] implFn FnDecl.braces := by
  refine .onKind fun kind => ?_
  split
  · exact (evenly_fnDecl hL).widen
  · exact (evenly_fnDecl hL).widen
  · exact .failUnexpected _

theorem evenly_implDecl (hL : L.Evenly setting doc) : Evenly setting doc .program L p [] implDecl Impl.braces := by
  refine .next (.needWord _) fun _ => .bind hL.type.widen fun _ => .next (.takeWord _) fun _ => .ite ?_ ?_
  · exact .bind hL.type.widen fun _ => .known (.next (.needMark _ rfl) fun _ =>
      .bind (.recovering (evenly_implFn hL) _ _) fun _ => .next (.needMark _ rfl) fun _ => .pure rfl)
  · exact .known (.next (.needMark _ rfl) fun _ =>
      .bind (.recovering (evenly_implFn hL) _ _) fun _ => .next (.needMark _ rfl) fun _ => .pure rfl)

theorem evenly_itemKind (hL : L.Evenly setting doc) : Evenly setting doc .program L p [] itemKind ItemKind.braces := by
  refine .look .cursor fun c => ?_
  split
  · exact .next (evenly_importDecl hL) fun _ => .pure rfl
  · exact .next (evenly_importDecl hL) fun _ => .pure rfl
  · exact .bind (evenly_fnDecl hL).widen fun _ => .pure rfl
  · exact .bind (evenly_fnDecl hL).widen fun _ => .pure rfl
  · exact .bind (evenly_typeDecl hL) fun _ => .pure rfl
  · exact .bind (evenly_implDecl hL) fun _ => .pure rfl
  · exact .throw
  · exact .throw
  · refine .ite (.bind (evenly_binding hL).widen fun _ => .pure rfl) ?_
    exact .ite (.bind (evenly_assignment hL).widen fun _ => .pure rfl) .throw
  · exact .ite (.bind (evenly_typeDecl hL) fun _ => .pure rfl) (.failUnexpected _)

theorem evenly_item (hL : L.Evenly setting doc) : Evenly setting doc .program L p [] item Item.braces := by
  unfold item
  refine .look .here fun _ => .next (.takeWord _) fun _ => .look .cursor fun _ => .ite (.throwThen _) ?_
  exact .bind (evenly_itemKind hL) fun _ => .look (.spanFrom _) fun _ => .pure rfl

end Grammar

/-! ## Programs -/

theorem tooDeep_evenly {doc : List Token} {scope : Scope} {r : Reader α} {view : α → List BraceNode}
    (h : r (level setting 0) = tooDeep setting.options.maxDepth) :
    Evenly setting doc scope (level setting 0) p [] r view :=
  .failed fun s => ⟨_, by rw [h]; rfl⟩

theorem level_evenly (setting : Setting) {doc : List Token} (hmatch : BracesMatch doc) (n : Nat) :
    (level setting n).Evenly setting doc := by
  induction n with
  | zero =>
    exact {
      closed := hmatch
      takes := level_takes setting 0
      expr := fun _ => tooDeep_evenly rfl
      operand := fun _ => tooDeep_evenly rfl
      block := tooDeep_evenly rfl
      type := tooDeep_evenly rfl
      record := tooDeep_evenly rfl
      firm := fun _ _ hr _ => by
        cases hr
        exact .inl rfl
      reads := fun hr => nomatch hr
      head := fun _ hr => nomatch hr
      noType := fun _ => ⟨_, _, rfl, .inl rfl⟩ }
  | succ n ih =>
    have lift {β : Type} {scope : Scope} {q : Cursor → Prop} {r r' : Reader β} {view : β → List BraceNode}
        (h : Evenly setting doc scope (level setting n) q [] r view)
        (heq : r' (level setting (n + 1)) = r (level setting n)) :
        Evenly setting doc scope (level setting (n + 1)) q [] r' view := by
      refine ⟨?_, ?_, ?_⟩
      · rw [heq]
        exact h.grows
      · rw [heq]
        exact h.ok
      · rw [heq]
        exact h.error
    exact {
      closed := hmatch
      takes := level_takes setting (n + 1)
      expr := fun position => lift (evenly_chain ih 1 position) rfl
      operand := fun position => lift (evenly_chain ih operandLevel position) rfl
      block := lift (evenly_blockBody ih) rfl
      type := lift (evenly_typeExpr ih) rfl
      record := lift (evenly_recordExpr ih) rfl
      firm := fun hkind hs hr ht => firm_blockBody ih hkind hs hr ht
      reads := fun hr => ⟨n + 1, _, _, hr, rfl, rfl⟩
      head := fun {s e t} hkind hr => by
        obtain ⟨fault, herror⟩ := chain_of_brace (L := level setting n) hkind 1
        exact nomatch herror.symm.trans hr
      noType := fun hkind => ⟨_, _, typeExpr_of_brace hkind, .inr rfl⟩ }

/-- If all faults of a program are gentle, its reading is calm to the end. -/
theorem itemsEnding_calm {setting : Setting} (hstrict : setting.options.strict = false) {tokens : List Token}
    (hfaults : ∀ fault ∈ (readItems setting tokens).faults, fault.Gentle) :
    ∃ items t, itemsEnding setting tokens = .ok items t ∧ t.Calm := by
  have hlast := itemsEnding_fatalLast hstrict tokens
  rw [readItems_eq] at hfaults
  obtain ⟨items, t, hread⟩ := itemsEnding_ok setting tokens
  rw [hread] at hfaults hlast
  refine ⟨items, t, hread, ?_, hfaults⟩
  cases hlast with
  | goes new faults mild halted => exact halted
  | halts new last faults mild fatal went halted =>
    have hmem : last ∈ t.faults := by
      rw [Ending.state_ok] at faults
      simp [faults]
    exact absurd (hfaults last hmem) (not_gentle_of_isFatal fatal)

/-- If every brace of a source is closed and its faults are gentle, then every block, record, macro
body and `match` of the program ends at the brace that matches its own. -/
theorem readItems_braces {setting : Setting} {source : String} (hstrict : setting.options.strict = false)
    (hmatch : BracesMatch (lex source).tokens)
    (hfaults : ∀ fault ∈ (readItems setting (lex source).tokens).faults, fault.Gentle) :
    ∀ node ∈ (readItems setting (lex source).tokens).value.flatMap Item.braces,
      node.Fits setting (lex source).tokens := by
  obtain ⟨items, t, hread, ht⟩ := itemsEnding_calm hstrict hfaults
  have hitems := (evenly_item (level_evenly setting hmatch setting.options.maxDepth)).recovering (p := fun _ => True)
    .item fun _ => false
  rw [readItems_eq, hread]
  exact (hitems.ok trivial (stands_lex source) hread ht).2 allFit_nil

/-- The first arm fails after its pattern, and recovery passes the braces that follow. -/
theorem readItems_braces_arm :
    BracesMatch (lex "x := match y \x7b 1 \x7b \x7d 3 -> \x7b m!\x7b ( \x7d \x7d \x7d").tokens ∧
      (readItems (.ofSource "x := match y \x7b 1 \x7b \x7d 3 -> \x7b m!\x7b ( \x7d \x7d \x7d" .standard)
        (lex "x := match y \x7b 1 \x7b \x7d 3 -> \x7b m!\x7b ( \x7d \x7d \x7d").tokens).faults.length = 1 ∧
      ∀ node ∈ (readItems (.ofSource "x := match y \x7b 1 \x7b \x7d 3 -> \x7b m!\x7b ( \x7d \x7d \x7d" .standard)
          (lex "x := match y \x7b 1 \x7b \x7d 3 -> \x7b m!\x7b ( \x7d \x7d \x7d").tokens).value.flatMap Item.braces,
        node.Fits (.ofSource "x := match y \x7b 1 \x7b \x7d 3 -> \x7b m!\x7b ( \x7d \x7d \x7d" .standard)
          (lex "x := match y \x7b 1 \x7b \x7d 3 -> \x7b m!\x7b ( \x7d \x7d \x7d").tokens := by
  have hmatch :
      BracesMatch (lex "x := match y \x7b 1 \x7b \x7d 3 -> \x7b m!\x7b ( \x7d \x7d \x7d").tokens := by
    decide +kernel
  exact ⟨hmatch, by decide +kernel, readItems_braces rfl hmatch (by decide +kernel)⟩

/-- The span of a block, a record or a macro body. -/
def BraceNode.group? : BraceNode → Option Span
  | .group span => some span
  | .selection _ _ => none

/-- The arm fails at its first token, the brace at 19. Recovery steps over that brace without
counting it, and the arms end at the brace that closes it. The block of the function ends at the
one that closes the arms. -/
theorem stuck_arm_unfit :
    BracesMatch (lex "fn f() \x7b match x \x7b \x7b a \x7d \x7d \x7d").tokens ∧
      (∀ fault ∈ (readItems (.ofSource "fn f() \x7b match x \x7b \x7b a \x7d \x7d \x7d" .standard)
        (lex "fn f() \x7b match x \x7b \x7b a \x7d \x7d \x7d").tokens).faults, fault.isFatal = false) ∧
      ∃ node ∈ (readItems (.ofSource "fn f() \x7b match x \x7b \x7b a \x7d \x7d \x7d" .standard)
          (lex "fn f() \x7b match x \x7b \x7b a \x7d \x7d \x7d").tokens).value.flatMap Item.braces,
        ¬node.Fits (.ofSource "fn f() \x7b match x \x7b \x7b a \x7d \x7d \x7d" .standard)
          (lex "fn f() \x7b match x \x7b \x7b a \x7d \x7d \x7d").tokens := by
  refine ⟨by decide +kernel, by decide +kernel, ?_⟩
  have hblock : (⟨7, 26⟩ : Span) ∈ ((readItems (.ofSource "fn f() \x7b match x \x7b \x7b a \x7d \x7d \x7d" .standard)
      (lex "fn f() \x7b match x \x7b \x7b a \x7d \x7d \x7d").tokens).value.flatMap Item.braces).filterMap
        BraceNode.group? := by decide +kernel
  have hpairs : ∀ place ∈ places (lex "fn f() \x7b match x \x7b \x7b a \x7d \x7d \x7d").tokens,
      ∀ pair ∈ matching? place, (⟨7, 26⟩ : Span) ≠ ⟨pair.1.start, pair.2.stop⟩ := by decide +kernel
  obtain ⟨node, hmem, hgroup⟩ := List.mem_filterMap.1 hblock
  refine ⟨node, hmem, fun hfits => ?_⟩
  cases node with
  | selection scrutinee span => cases hgroup
  | group span =>
    cases hgroup
    obtain ⟨place, hplace, opening, closing, hmatched, hspan⟩ := hfits
    exact hpairs place hplace (opening, closing) (matching?_eq_some_iff.2 hmatched) hspan

end JuiceSyntax
