/-
  The trees that the grammar builds are sound, also where it has recovered from faults: one lemma for each
  production, by the rules for steps. What the shape of a tree rests on:

  * a tuple is built only after a comma behind which the parenthesis does not close at once
    (`Builds.separatedBefore`);
  * the operands of a chain are no chains themselves, and `climb` joins them by their levels
    (`sound_settle`, `sound_climb`);
  * a brace that can be read as nothing is taken for an empty block, which may stand for any body.
-/
import JuiceSyntax.Document
import JuiceSyntax.Proofs.Grammar.Building

namespace JuiceSyntax

open Reader Grammar

/-- The readers of a level build sound trees. -/
structure Level.Builds (good : Span → Prop) (fair : List Token → Prop) (L : Level) : Prop where
  expr : ∀ {p} position, JuiceSyntax.Builds good fair L p (Reader.expr position) fun e => AllSound good e.elements
  operand : ∀ {p} position, JuiceSyntax.Builds good fair L p (Reader.operand position) fun e => AllSound good e.elements
  block : ∀ {p}, JuiceSyntax.Builds good fair L p Reader.block fun b => AllSound good b.elements
  type : ∀ {p}, JuiceSyntax.Builds good fair L p Reader.type fun t => AllSound good t.elements
  record : ∀ {p}, JuiceSyntax.Builds good fair L p Reader.recordLiteral fun e =>
    AllSound good e.elements ∧ e.kind.isRecord = true

/-- What a chain is made of. -/
structure Expr.Operand (good : Span → Prop) (e : Expr) : Prop where
  sound : AllSound good e.elements
  single : e.level? = none

variable {good : Span → Prop} {fair : List Token → Prop} {L : Level} {p : Cursor → Prop}

/-- An expression that is no chain. -/
theorem Expr.Operand.of {kind : ExprKind} {span : Span} (h : good span) (hkind : kind.isShaped = true)
    (hinner : AllSound good kind.elements) (hsingle : Expr.level? ⟨kind, span⟩ = none) : Expr.Operand good ⟨kind, span⟩ :=
  ⟨.expr h hkind hinner, hsingle⟩

namespace Grammar

open Builds AllSound

/-! ## Literals -/

theorem builds_fragment (hg : Ground good fair) (hL : L.Builds good fair) {tokens : List Token} (htokens : fair tokens)
    {span : Span} (hspan : good span) : Builds good fair L p (fragment tokens span) fun e => AllSound good e.elements := by
  unfold fragment
  refine .ite (fun _ => .throwThen (.ofCause hspan _)) fun _ => .withTokens htokens ?_
  refine .bind (hL.expr .value) fun e he => .look .atEnd fun _ => ?_
  exact .ite (fun _ => .pure he) fun _ => .failAdvisedThen hg _ _

theorem builds_segments (hg : Ground good fair) (hL : L.Builds good fair) {pieces : List Piece}
    (h : ∀ span ∈ pieceSpans pieces, good span) (hfair : ∀ tokens span, .fragment tokens span ∈ pieces → fair tokens) :
    Builds good fair L p (segments pieces) fun segs => AllSound good (segmentElements segs) := by
  induction pieces generalizing p with
  | nil => exact .pure .nil
  | cons piece rest ih =>
    have hrest : ∀ tokens span, .fragment tokens span ∈ rest → fair tokens := fun tokens span hmem =>
      hfair tokens span (List.mem_cons_of_mem _ hmem)
    cases piece with
    | text text span =>
      obtain ⟨hspan, hspans⟩ := List.forall_mem_cons.1 h
      exact .bind (ih hspans hrest) fun _ hsegs => .pure (.spot hspan hsegs)
    | escape value raw span =>
      obtain ⟨hspan, hspans⟩ := List.forall_mem_cons.1 h
      exact .bind (ih hspans hrest) fun _ hsegs => .pure (.spot hspan hsegs)
    | fragment tokens span =>
      obtain ⟨hspan, hspans⟩ := List.forall_mem_cons.1 h
      refine .bind (builds_fragment hg hL (hfair tokens span List.mem_cons_self) hspan) fun _ he => ?_
      refine .bind (ih (List.forall_mem_append.1 hspans).2 hrest) fun _ hsegs => .pure ?_
      exact .spot hspan (.append he hsegs)
    | indent span => exact ih (List.forall_mem_cons.1 h).2 hrest

theorem sound_layout {pieces : List Piece} (h : ∀ span ∈ pieceSpans pieces, good span) (multiline : Bool) :
    AllSound good (if multiline then Layout.lines (indentSpans pieces) else .inline).elements := by
  split
  · refine .spots fun span hmem => ?_
    obtain ⟨piece, hpiece, heq⟩ := List.mem_filterMap.1 hmem
    have hspan := h _ (mem_pieceSpans hpiece).1
    cases piece with
    | indent span' =>
      cases heq
      exact hspan
    | _ => cases heq
  · exact .nil

theorem builds_stringLiteral (hg : Ground good fair) (hL : L.Builds good fair) {multiline : Bool} {pieces : List Piece}
    (h : ∀ span ∈ (Kind.str multiline pieces).spans, good span) (hfair : FineKind fair (.str multiline pieces)) :
    Builds good fair L p (stringLiteral multiline pieces) (Expr.Operand good) := by
  have hpieces : ∀ span ∈ pieceSpans pieces, good span := fun span hmem => h span (by rw [Kind.spans]; exact hmem)
  refine .bind (.advance hg) fun token htoken => .bind (builds_segments hg hL hpieces (hfair multiline pieces rfl)) fun _ hsegs => ?_
  exact .pure (.of htoken rfl (.append hsegs (sound_layout hpieces multiline)) rfl)

theorem builds_listLiteral (hg : Ground good fair) (hL : L.Builds good fair) :
    Builds good fair L p listLiteral (Expr.Operand good) := by
  refine .bind (.needMark hg _) fun _ hopening => .bind (.separated hg _ (hL.expr _)) fun _ hitems => ?_
  exact .bind (.needMark hg _) fun _ hclosing => .pure (.of (hg.cover hopening hclosing) rfl (.exprs hitems) rfl)

theorem builds_atom (hg : Ground good fair) {kind : ExprKind} (h : ∀ span, good span → Expr.Operand good ⟨kind, span⟩) :
    Builds good fair L p (atom kind) (Expr.Operand good) :=
  .bind (.advance hg) fun _ htoken => .pure (h _ htoken)

/-- A label is passed over. -/
theorem builds_argLabel (hg : Ground good fair) : Builds good fair L p argLabel fun _ => True := by
  refine .look .kind fun kind => .look (.peek 1) fun second => ?_
  split
  · exact .bind (.skip hg 2) fun _ _ => .pure trivial
  · exact .pure trivial

/-! ## Functions and parameters -/

theorem builds_name (hg : Ground good fair) : Builds good fair L p name fun named => good named.2 := by
  refine .look .kind fun kind => ?_
  split
  · exact .bind (.advance hg) fun _ htoken => .pure htoken
  · exact .failUnexpected hg _

theorem builds_anyName (hg : Ground good fair) : Builds good fair L p anyName fun named => good named.2 := by
  refine .look .kind fun kind => ?_
  split
  · exact .bind (.advance hg) fun _ htoken => .pure htoken
  · exact .bind (.advance hg) fun _ htoken => .pure htoken
  · exact .failUnexpected hg _

theorem builds_param (hg : Ground good fair) (hL : L.Builds good fair) {named : Reader (String × Span)}
    (h : Builds good fair L p named fun named => good named.2) :
    Builds good fair L p (param named) fun param => AllSound good param.elements := by
  refine .bind h fun _ hname => .bind (.takeMark hg _) fun _ _ => .ite (fun _ => ?_) fun _ => .pure (.spot hname .nil)
  exact .bind hL.type fun _ htype => .pure (.spot (hg.cover hname htype.typeSpan) htype)

theorem builds_params (hg : Ground good fair) (hL : L.Builds good fair) {named : Reader (String × Span)}
    (h : Builds good fair L (fun _ => True) named fun named => good named.2) :
    Builds good fair L p (params named) fun items => AllSound good (paramElements items) := by
  refine .bind (.needMark hg _) fun _ _ => .bind (.separated hg _ (builds_param hg hL h)) fun _ hitems => ?_
  exact .bind (.needMark hg _) fun _ _ => .pure (.params hitems)

theorem builds_fnName (hg : Ground good fair) :
    Builds good fair L p fnName fun title => ∀ name ∈ title.toList, good name.span := by
  refine .look .kind fun kind => ?_
  split
  · exact .bind (.advance hg) fun _ htoken => .pure (List.forall_mem_singleton.2 htoken)
  · exact .bind (.advance hg) fun _ htoken => .pure (List.forall_mem_singleton.2 htoken)
  · exact .pure nofun

theorem builds_fnDecl (hg : Ground good fair) (hL : L.Builds good fair) :
    Builds good fair L p fnDecl fun decl => AllSound good decl.elements := by
  refine .onHere hg fun _ hstart => .bind (.takeWord hg _) fun _ _ => .bind (.needWord hg _) fun _ _ => ?_
  refine .bind (builds_fnName hg) fun _ hname => .look (.atMark _) fun _ => ?_
  refine .iteBind (builds_params hg hL (builds_name hg)) (.pure .nil) fun _ hitems => .bind (.takeMark hg _) fun _ _ => ?_
  have result : Builds good fair L (fun _ => True) (some <$> type) fun result => AllSound good (optionalTypeElements result) :=
    .map _ hL.type fun _ htype => htype
  refine .iteBind result (.pure .nil) fun _ hresult => .bind hL.block fun _ hbody => .bind (.spanFrom hg hstart) fun _ hspan => ?_
  exact .pure (.spot hspan (((AllSound.spots hname).append hitems).append hresult |>.append hbody))

/-! ## Types -/

theorem builds_typeArg (hg : Ground good fair) (hL : L.Builds good fair) :
    Builds good fair L p typeArg fun arg => AllSound good arg.elements := by
  refine .onHere hg fun _ hstart => .bind (builds_argLabel hg) fun _ _ => .bind hL.type fun _ htype => ?_
  exact .pure (.spot (hg.cover hstart htype.typeSpan) htype)

theorem builds_typeCall (hg : Ground good fair) (hL : L.Builds good fair) (callee : String) {calleeSpan : Span}
    (h : good calleeSpan) : Builds good fair L p (typeCall callee calleeSpan) fun t => AllSound good t.elements := by
  refine .bind (.needMark hg _) fun _ _ => .bind (.separated hg _ (builds_typeArg hg hL)) fun _ hargs => ?_
  refine .bind (.needMark hg _) fun _ hclosing => .pure ?_
  exact .type (hg.cover h hclosing) rfl (.spot h (.typeArgs hargs))

/-- One more item than there is. -/
theorem two_le_length_cons {α : Type} (first : α) {rest : List α} (h : rest ≠ []) :
    decide (2 ≤ (first :: rest).length) = true := by
  have hpos := List.length_pos_iff.2 h
  rw [List.length_cons]
  exact decide_eq_true (by omega)

theorem builds_typeParens (hg : Ground good fair) (hL : L.Builds good fair) :
    Builds good fair L p typeParens fun t => AllSound good t.elements := by
  unfold typeParens
  refine .bind (.needMark hg _) fun _ hopening => .look (.atMark _) fun _ => .ite (fun _ => .failAdvisedThen hg _ _) fun _ => ?_
  refine .bind hL.type fun first hfirst => .bind (.takeMark hg _) fun _ _ => .ite (fun _ => ?_) fun _ => ?_
  · refine .onMark fun closed => ?_
    cases closed with
    | true =>
      refine .bind (.advance hg) fun _ hclosing => .bind (.record hg (.ofCause (hg.cover hopening hclosing) _)) fun _ _ => ?_
      exact .pure (.type (hg.cover hopening hclosing) rfl hfirst)
    | false =>
      refine .separatedBefore hg hL.type (fun _ hc => hc.2) fun _ _ hne hrest hclosing => .pure ?_
      exact .type (hg.cover hopening hclosing) (two_le_length_cons first hne) (.append hfirst (.types hrest))
  · exact .bind (.needMark hg _) fun _ hclosing => .pure (.type (hg.cover hopening hclosing) rfl hfirst)

theorem builds_typeOfName (hg : Ground good fair) (hL : L.Builds good fair) (text : String) {kind : TypeKind}
    (hshaped : kind.isShaped = true) (hkind : AllSound good kind.elements) :
    Builds good fair L p (typeOfName text kind) fun t => AllSound good t.elements := by
  refine .bind (.advance hg) fun _ htoken => .look (.atMark _) fun _ => ?_
  exact .ite (fun _ => builds_typeCall hg hL _ htoken) fun _ => .pure (.type htoken hshaped hkind)

theorem builds_literalType {literal : Reader Expr} (h : Builds good fair L p literal (Expr.Operand good)) :
    Builds good fair L p (literalType literal) fun t => AllSound good t.elements :=
  .bind h fun _ he => .pure (.type he.sound.exprSpan rfl he.sound)

theorem builds_typeAtom (hg : Ground good fair) (hL : L.Builds good fair) :
    Builds good fair L p typeAtom fun t => AllSound good t.elements := by
  refine .onKind hg fun kind hfair hspans => ?_
  split
  · rename_i text
    cases hname : BuiltinType.ofName? text with
    | none => exact builds_typeOfName hg hL _ rfl .nil
    | some type => exact builds_typeOfName hg hL _ rfl .nil
  · exact builds_typeOfName hg hL _ rfl .nil
  · exact builds_literalType (builds_atom hg fun _ hspan => .of hspan rfl .nil rfl)
  · exact builds_literalType (builds_atom hg fun _ hspan => .of hspan rfl .nil rfl)
  · exact builds_literalType (builds_atom hg fun _ hspan => .of hspan rfl .nil rfl)
  · exact builds_literalType (builds_stringLiteral hg hL hspans hfair)
  · exact builds_literalType (builds_listLiteral hg hL)
  · exact builds_typeParens hg hL
  · exact .failUnexpected hg _

theorem builds_typeRestUpTo (hg : Ground good fair) (hL : L.Builds good fair) {left : TypeExpr}
    (h : AllSound good left.elements) (fuel : Nat) :
    Builds good fair L p (typeRestUpTo left fuel) fun t => AllSound good t.elements := by
  induction fuel generalizing left p with
  | zero => exact .pure h
  | succ fuel ih =>
    refine .look .kind fun kind => ?_
    split
    · refine .bind (.advance hg) fun _ _ => .bind (builds_typeAtom hg hL) fun _ hright => ih ?_
      exact .type (hg.cover h.typeSpan hright.typeSpan) rfl (.append h hright)
    · exact .pure h

theorem builds_typeExpr (hg : Ground good fair) (hL : L.Builds good fair) :
    Builds good fair L p typeExpr fun t => AllSound good t.elements :=
  .bind (builds_typeAtom hg hL) fun _ hfirst => .look .tokensLeft fun _ => builds_typeRestUpTo hg hL hfirst _

/-! ## Arguments, macros and parentheses -/

theorem builds_arg (hg : Ground good fair) (hL : L.Builds good fair) :
    Builds good fair L p arg fun arg => AllSound good arg.elements := by
  refine .onHere hg fun _ hstart => .bind (builds_argLabel hg) fun _ _ => .bind (hL.expr _) fun _ he => ?_
  exact .pure (.spot (hg.cover hstart he.exprSpan) he)

theorem builds_args (hg : Ground good fair) (hL : L.Builds good fair) :
    Builds good fair L p args fun result => AllSound good (argElements result.1) ∧ good result.2 := by
  refine .bind (.needMark hg _) fun _ _ => .bind (.separated hg _ (builds_arg hg hL)) fun _ hargs => ?_
  exact .bind (.needMark hg _) fun _ hclosing => .pure ⟨.args hargs, hclosing⟩

/-- Further on in the same tokens a token at the cursor is one of those that were ahead. -/
theorem current_mem_of_skip {c : Cursor} (n : Nat) (h : (c.skip n).atEnd = false) : (c.skip n).current ∈ c.rest := by
  have hsuffix : (c.skip n).rest <:+ c.rest := by
    clear h
    induction n generalizing c with
    | zero => exact List.suffix_refl _
    | succ n ih =>
      have hadvance : c.advance.rest <:+ c.rest := by
        rw [Cursor.rest_advance]
        split
        · exact List.suffix_refl _
        · exact List.tail_suffix _
      exact (ih (c := c.advance)).trans hadvance
  refine hsuffix.subset ?_
  unfold Cursor.current
  cases hrest : (c.skip n).rest with
  | nil => simp [Cursor.atEnd, Cursor.kind, Cursor.current, hrest, Kind.isDone] at h
  | cons token rest => exact List.mem_cons_self

/-- The closing brace of a macro body is a later token than the opening one, and the tokens kept of the body
are some of those between. -/
theorem builds_macroBody (hg : Ground good fair) :
    Builds good fair L p macroBody fun body => good body.span ∧ AllSound good body.elements := by
  unfold macroBody
  refine .onMarkTaken hg _ fun opening hopening => .onCursor fun c hfair hc => ?_
  refine .stepAt (f := fun _ => ()) (g := fun c' => c'.skip (innerLength 0 c.rest)) (fun _ => rfl) (fun _ h => hg.skip h _) fun c' hc' _ => ?_
  refine .stepAt (f := Cursor.atEnd) (g := id) (fun _ => rfl) (fun _ => id) fun d hd hanchored => .ite (fun _ => ?_) fun hmid => ?_
  · exact .onHere hg fun _ hspan => .throwThen (.ofCause hspan _)
  refine .stepAt (f := Cursor.current) (g := Cursor.advance) (fun _ => rfl) (fun _ => hg.advance) fun d' hd' _ => ?_
  subst hc' hd
  have hclosing : good (c'.skip (innerLength 0 c'.rest)).current.span := hg.span hanchored
  have hmem := current_mem_of_skip (innerLength 0 c'.rest) (by simpa using hmid)
  have hinner := hg.between hfair hmem
  rw [show d' = c'.skip (innerLength 0 c'.rest) from hd']
  refine .bind (.noteBody hinner) fun _ _ => .look (.sourceText _) fun _ => .pure ⟨hg.cover hopening hclosing, ?_⟩
  refine .spot (hg.cover hopening hclosing) (.spot hinner (.spots fun span hspan => ?_))
  exact hg.tokens hc.ahead span (tokenSpans_subset (List.take_subset _ _) hspan)

theorem builds_macroCall (hg : Ground good fair) (hL : L.Builds good fair) (text : String) (position : Position) :
    Builds good fair L p (macroCall text position) (Expr.Operand good) := by
  refine .bind (.advance hg) fun named hname => .look (.atMark _) fun parenthesized => ?_
  have called {items : List Arg} (hitems : AllSound good (argElements items)) {stop : Span} (hstop : good stop) :
      Builds good fair L (fun _ => True) (do
        if (← Reader.atMark .lBrace) && position != .head then
          let body ← macroBody
          return ⟨.macroCall text named.span parenthesized items (some body), named.span.cover body.span⟩
        else if parenthesized then
          return ⟨.macroCall text named.span true items none, named.span.cover stop⟩
        else
          Reader.failUnexpected .macroArguments) (Expr.Operand good) := by
    refine .look (.atMark _) fun _ => .ite (fun _ => ?_) fun _ => .ite (fun _ => ?_) fun _ => .failUnexpected hg _
    · refine .bind (builds_macroBody hg) fun body hbody => .pure (.of (hg.cover hname hbody.1) (Bool.or_true _) ?_ rfl)
      exact .spot hname (.append hitems (by simpa using hbody.2))
    · exact .pure (.of (hg.cover hname hstop) rfl (.spot hname (.append hitems .nil)) rfl)
  cases parenthesized with
  | true => exact .bind (builds_args hg hL) fun result hargs => called hargs.1 hargs.2
  | false => exact .known (called .nil hname)

theorem builds_parens (hg : Ground good fair) (hL : L.Builds good fair) :
    Builds good fair L p parens (Expr.Operand good) := by
  unfold parens
  refine .bind (.needMark hg _) fun _ hopening => .look (.atMark _) fun _ => .ite (fun _ => .failAdvisedThen hg _ _) fun _ => ?_
  refine .bind (hL.expr _) fun first hfirst => .bind (.takeMark hg _) fun _ _ => .ite (fun _ => ?_) fun _ => ?_
  · refine .onMark fun closed => ?_
    cases closed with
    | true =>
      refine .bind (.advance hg) fun _ hclosing => .bind (.record hg (.ofCause (hg.cover hopening hclosing) _)) fun _ _ => ?_
      exact .pure (.of (hg.cover hopening hclosing) rfl hfirst rfl)
    | false =>
      refine .separatedBefore hg (hL.expr _) (fun _ hc => hc.2) fun _ _ hne hrest hclosing => .pure ?_
      exact .of (hg.cover hopening hclosing) (two_le_length_cons first hne) (.append hfirst (.exprs hrest)) rfl
  · exact .bind (.needMark hg _) fun _ hclosing => .pure (.of (hg.cover hopening hclosing) rfl hfirst rfl)

/-! ## Braces -/

/-- What stands for a body of an arm. -/
structure Braced (good : Span → Prop) (e : Expr) : Prop where
  operand : Expr.Operand good e
  kind : (e.kind.isBlock || e.kind.isRecord) = true

theorem builds_blockExpr (hL : L.Builds good fair) :
    Builds good fair L p blockExpr fun e => Expr.Operand good e ∧ e.kind.isBlock = true :=
  .bind hL.block fun _ hbody => .pure ⟨.of hbody.blockSpan rfl hbody rfl, rfl⟩

/-- A block as a body. -/
theorem Braced.of_block {e : Expr} (h : Expr.Operand good e ∧ e.kind.isBlock = true) : Braced good e :=
  ⟨h.1, by rw [h.2]; rfl⟩

theorem Braced.of_record {e : Expr} (h : AllSound good e.elements ∧ e.kind.isRecord = true) : Braced good e := by
  refine ⟨⟨h.1, ?_⟩, by rw [h.2, Bool.or_true]⟩
  obtain ⟨kind, span⟩ := e
  cases kind with
  | record fields => rfl
  | _ => nomatch h.2

theorem builds_unresolvable (hg : Ground good fair) : Builds good fair L p unresolvable (Braced good) := by
  unfold unresolvable
  refine .onHere hg fun _ hstart => .look .cursor fun c => .bind (.skip hg _) fun _ _ => ?_
  refine .bind (.spanFrom hg hstart) fun _ hspan => .bind (.record hg (.ofCause hspan _)) fun _ _ => .pure ?_
  exact .of_block ⟨.of hspan rfl (.spot hspan .nil) rfl, rfl⟩

/-- A brace tried as one form and then as something else. -/
theorem builds_tryBrace_else (form : BraceForm) {r otherwise : Reader Expr} (h : Builds good fair L p r (Braced good))
    (ho : Builds good fair L (fun _ => True) otherwise (Braced good)) :
    Builds good fair L p (do
      if let some e ← tryBrace form r then
        return e
      otherwise) (Braced good) := by
  refine .bind (.tryBrace form h) fun found hfound => ?_
  cases found with
  | some e => exact .pure (hfound e rfl)
  | none => exact ho

theorem builds_braceValue (hg : Ground good fair) (hL : L.Builds good fair) : Builds good fair L p braceValue (Braced good) := by
  refine .look .cursor fun _ => .ite (fun _ => ?_) fun _ => (builds_blockExpr hL).imp fun _ => .of_block
  refine builds_tryBrace_else .record (hL.record.imp fun _ => .of_record) ?_
  exact builds_tryBrace_else .block ((builds_blockExpr hL).imp fun _ => .of_block) (builds_unresolvable hg)

theorem builds_armBody (hg : Ground good fair) (hL : L.Builds good fair) : Builds good fair L p armBody (Braced good) := by
  refine .look (.atMark _) fun _ => .ite (fun _ => ?_) fun _ => .failThen hg _
  refine builds_tryBrace_else .block ((builds_blockExpr hL).imp fun _ => .of_block) (.look .cursor fun _ => .ite (fun _ => ?_) fun _ => ?_)
  · exact builds_tryBrace_else .record (hL.record.imp fun _ => .of_record) (builds_unresolvable hg)
  · exact (builds_blockExpr hL).imp fun _ => .of_block

/-! ## Control flow -/

structure Branch.Sound (good : Span → Prop) (branch : Branch) : Prop where
  start : good branch.start
  test : AllSound good branch.test.elements
  body : AllSound good branch.body.elements

theorem builds_branch (hg : Ground good fair) (hL : L.Builds good fair) : Builds good fair L p branch (Branch.Sound good) := by
  refine .bind (.needWord hg _) fun _ hstart => .bind (hL.expr _) fun _ htest => .bind hL.block fun _ hbody => ?_
  exact .pure ⟨hstart, htest, hbody⟩

/-- What may follow a branch: nothing, another conditional or a block. -/
structure Otherwise (good : Span → Prop) (otherwise : Option Expr) : Prop where
  sound : AllSound good (optionalExprElements otherwise)
  shaped : (otherwise.all fun e => e.kind.isConditional || e.kind.isBlock) = true

theorem builds_elseBranchesUpTo (hg : Ground good fair) (hL : L.Builds good fair) (fuel : Nat) :
    Builds good fair L p (elseBranchesUpTo fuel) fun result =>
      (∀ branch ∈ result.1, branch.Sound good) ∧ Otherwise good result.2 := by
  have ended : Otherwise good none := ⟨.nil, rfl⟩
  induction fuel generalizing p with
  | zero => exact .pure ⟨nofun, ended⟩
  | succ fuel ih =>
    refine .bind (.takeWord hg _) fun _ _ => .ite (fun _ => .look .kind fun _ => .ite (fun _ => ?_) fun _ => ?_) fun _ => ?_
    · refine .bind (builds_branch hg hL) fun _ hfirst => .bind ih fun _ hrest => .pure ?_
      exact ⟨List.forall_mem_cons.2 ⟨hfirst, hrest.1⟩, hrest.2⟩
    · refine .bind (builds_blockExpr hL) fun e he => .pure ⟨nofun, he.1.sound, ?_⟩
      rw [Option.all_some, he.2, Bool.or_true]
    · exact .pure ⟨nofun, ended⟩

theorem sound_toExpr (hg : Ground good fair) {branch : Branch} (h : branch.Sound good) {otherwise : Option Expr}
    (ho : Otherwise good otherwise) : Expr.Operand good (branch.toExpr otherwise) := by
  have hstop : good (otherwise.elim branch.body.span Expr.span) := by
    cases otherwise with
    | none => exact h.body.blockSpan
    | some e => exact AllSound.exprSpan ho.sound
  exact .of (hg.cover h.start hstop) ho.shaped ((h.test.append h.body).append ho.sound) rfl

theorem sound_foldr (hg : Ground good fair) {branches : List Branch} (h : ∀ branch ∈ branches, branch.Sound good)
    {last : Option Expr} (hlast : Otherwise good last) :
    Otherwise good (branches.foldr (fun b otherwise => some (b.toExpr otherwise)) last) := by
  induction branches with
  | nil => exact hlast
  | cons branch rest ih =>
    obtain ⟨hbranch, hrest⟩ := List.forall_mem_cons.1 h
    exact ⟨(sound_toExpr hg hbranch (ih hrest)).sound, rfl⟩

theorem builds_conditional (hg : Ground good fair) (hL : L.Builds good fair) :
    Builds good fair L p conditional (Expr.Operand good) := by
  refine .bind (builds_branch hg hL) fun _ hfirst => .look .tokensLeft fun _ => ?_
  refine .bind (builds_elseBranchesUpTo hg hL _) fun _ hothers => .pure ?_
  exact sound_toExpr hg hfirst (sound_foldr hg hothers.1 hothers.2)

theorem builds_pattern (hg : Ground good fair) (hL : L.Builds good fair) :
    Builds good fair L p pattern fun pattern => AllSound good pattern.elements := by
  have value : Builds good fair L p (do
      let value ← expr .head
      unless ← Reader.atMark .arrow do
        Reader.failUnexpected (.mark .arrow)
      return value) fun e => AllSound good e.elements := by
    refine .bind (hL.expr _) fun _ he => .look (.atMark _) fun _ => ?_
    exact .ite (fun _ => .pure he) fun _ => .failThen hg _
  refine .bind (.speculate value) fun found hfound => ?_
  cases found with
  | some value => exact .pure (hfound value rfl)
  | none => exact .bind hL.type fun _ htype => .pure htype

theorem builds_arm (hg : Ground good fair) (hL : L.Builds good fair) :
    Builds good fair L p arm fun arm => AllSound good arm.elements := by
  refine .bind (builds_pattern hg hL) fun _ hpattern => .bind (.needMark hg _) fun _ _ => ?_
  refine .bind (builds_armBody hg hL) fun _ hbody => .pure ?_
  have hspan := hg.cover hpattern.patternSpan hbody.operand.sound.exprSpan
  exact .cons (.of rfl hbody.kind hspan) (.append hpattern hbody.operand.sound)

theorem builds_selection (hg : Ground good fair) (hL : L.Builds good fair) :
    Builds good fair L p selection (Expr.Operand good) := by
  refine .bind (.needWord hg _) fun _ hstart => .bind (hL.expr _) fun _ hscrutinee => .bind (.needMark hg _) fun _ _ => ?_
  refine .bind (.recovering hg (builds_arm hg hL) _ _) fun _ harms => .bind (.needMark hg _) fun _ hclosing => .pure ?_
  exact .of (hg.cover hstart hclosing) rfl (.append hscrutinee (.arms harms)) rfl

/-! ## Operands -/

theorem builds_primary (hg : Ground good fair) (hL : L.Builds good fair) (position : Position) :
    Builds good fair L p (primary position) (Expr.Operand good) := by
  have fn : Builds good fair L p (do
      let decl ← fnDecl
      return ⟨.fn decl, decl.span⟩) (Expr.Operand good) :=
    .bind (builds_fnDecl hg hL) fun _ hdecl => .pure (.of hdecl.fnSpan rfl hdecl rfl)
  refine .onKind hg fun kind hfair hspans => ?_
  split
  · exact builds_atom hg fun _ hspan => .of hspan rfl .nil rfl
  · exact builds_atom hg fun _ hspan => .of hspan rfl .nil rfl
  · exact builds_atom hg fun _ hspan => .of hspan rfl .nil rfl
  · exact builds_atom hg fun _ hspan => .of hspan rfl .nil rfl
  · exact builds_atom hg fun _ hspan => .of hspan rfl .nil rfl
  · exact builds_stringLiteral hg hL hspans hfair
  · exact builds_macroCall hg hL _ _
  · exact builds_listLiteral hg hL
  · exact builds_parens hg hL
  · cases position with
    | statement => exact (builds_blockExpr hL).imp fun _ => And.left
    | value => exact (builds_braceValue hg hL).imp fun _ => Braced.operand
    | head => exact .failUnexpected hg _
  · exact fn
  · exact fn
  · exact builds_conditional hg hL
  · exact builds_selection hg hL
  · exact .onHere hg fun _ hspan => .throw (.ofCause hspan _)
  · exact .onHere hg fun _ hspan => .throw (.ofCause hspan _)
  · exact .failUnexpected hg _

theorem sound_typeAccess (hg : Ground good fair) {base member : Expr} (hbase : Expr.Operand good base)
    (hmember : Expr.Operand good member) : Expr.Operand good (typeAccess base member) :=
  .of (hg.cover hbase.sound.exprSpan hmember.sound.exprSpan) rfl (.append hbase.sound hmember.sound) rfl

theorem builds_accessesUpTo (hg : Ground good fair) (hL : L.Builds good fair) (position : Position) {base : Expr}
    (h : Expr.Operand good base) (fuel : Nat) :
    Builds good fair L p (accessesUpTo position base fuel) (Expr.Operand good) := by
  induction fuel generalizing base p with
  | zero => exact .pure h
  | succ fuel ih =>
    refine .bind (.takeMark hg _) fun _ _ => .ite (fun _ => ?_) fun _ => .pure h
    exact .bind (builds_primary hg hL _) fun _ hmember => ih (sound_typeAccess hg h hmember)

theorem refusesAttempt_of_accepts {kind : ExprKind} (h : acceptsAttempt kind = true) : kind.refusesAttempt = false := by
  cases kind with
  | attempt _ | group _ | unary _ _ | binary _ _ _ | fn _ | conditional _ _ _ | selection _ _ | block _ => cases h
  | _ => rfl

theorem builds_onceAttempted (hg : Ground good fair) {e : Expr} {next : Unit → Reader Expr} {post : Expr → Prop}
    (h : Builds good fair L p (next ()) post) : Builds good fair L p (onceAttempted e next) post := by
  unfold onceAttempted
  split
  · exact .failAdvisedThen hg _ _
  · exact h

theorem builds_attemptOf (hg : Ground good fair) {e : Expr} (h : Expr.Operand good e) :
    Builds good fair L p (attemptOf e) (Expr.Operand good) := by
  refine builds_onceAttempted hg (.ite (fun haccepts => .bind (.advance hg) fun _ hstop => .pure ?_) fun _ =>
    .failAdvisedThen hg _ _)
  have hshaped : (ExprKind.attempt e).isShaped = true := by
    rw [ExprKind.isShaped, refusesAttempt_of_accepts haccepts]
    rfl
  exact .of (hg.cover h.sound.exprSpan hstop) hshaped h.sound rfl

theorem builds_postfixUpTo (hg : Ground good fair) (hL : L.Builds good fair) (position : Position) {e : Expr}
    (h : Expr.Operand good e) (fuel : Nat) :
    Builds good fair L p (postfixUpTo position e fuel) (Expr.Operand good) := by
  induction fuel generalizing e p with
  | zero => exact .pure h
  | succ fuel ih =>
    refine .look .kind fun kind => ?_
    split
    · refine .bind (builds_args hg hL) fun result hargs => ih ?_
      exact .of (hg.cover h.sound.exprSpan hargs.2) rfl (.append h.sound hargs.1) rfl
    · refine .bind (.advance hg) fun _ _ => .bind (builds_primary hg hL _) fun _ hfirst => .look .tokensLeft fun _ => ?_
      refine .bind (builds_accessesUpTo hg hL _ hfirst _) fun _ hmember => ih ?_
      exact .of (hg.cover h.sound.exprSpan hmember.sound.exprSpan) rfl (.append h.sound hmember.sound) rfl
    · refine .bind (.advance hg) fun _ _ => .bind (builds_primary hg hL _) fun _ hmember => ?_
      exact ih (sound_typeAccess hg h hmember)
    · exact .bind (builds_attemptOf hg h) fun _ hinner => ih hinner
    · exact .pure h

theorem builds_postfixExpr (hg : Ground good fair) (hL : L.Builds good fair) (position : Position) :
    Builds good fair L p (postfixExpr position) (Expr.Operand good) :=
  .bind (builds_primary hg hL _) fun _ hfirst => .look .tokensLeft fun _ => builds_postfixUpTo hg hL _ hfirst _

theorem builds_unaryExpr (hg : Ground good fair) (hL : L.Builds good fair) (position : Position) :
    Builds good fair L p (unaryExpr position) (Expr.Operand good) := by
  refine .look .kind fun kind => ?_
  split
  · refine .bind (.advance hg) fun _ hstart => .bind (hL.operand _) fun _ hinner => .pure ?_
    exact .of (hg.cover hstart hinner.exprSpan) rfl hinner rfl
  · exact builds_postfixExpr hg hL _

/-! ## Chains -/

/-- The operators on top of `e`, if it is a chain, bind at least as tightly as `level`. -/
def Tight (level : Nat) (e : Expr) : Prop := (e.level?.all fun level' => decide (level ≤ level')) = true

theorem Tight.of_le {level level' : Nat} {e : Expr} (h : Tight level' e) (hle : level ≤ level') : Tight level e := by
  unfold Tight at h ⊢
  cases hlevel : e.level? with
  | none => rfl
  | some found =>
    rw [hlevel] at h
    have hfound : level' ≤ found := by simpa using h
    simpa using Nat.le_trans hle hfound

theorem Tight.of_operand {e : Expr} (h : Expr.Operand good e) (level : Nat) : Tight level e := by
  rw [Tight, h.single]
  rfl

/-- Operands that wait: each is as tight as its operator asks, and the operators are of lower and lower
level, all of them below `level`. -/
inductive Waiting (good : Span → Prop) : Nat → List (Expr × BinaryOp) → Prop
  | nil (level : Nat) : Waiting good level []
  | cons {level : Nat} {left : Expr} {op : BinaryOp} {rest : List (Expr × BinaryOp)} (below : op.level < level)
    (sound : AllSound good left.elements) (tight : Tight op.level left) (waits : Waiting good op.level rest) :
    Waiting good level ((left, op) :: rest)

theorem Waiting.of_le {level level' : Nat} {waiting : List (Expr × BinaryOp)} (h : Waiting good level waiting)
    (hle : level ≤ level') : Waiting good level' waiting := by
  cases h with
  | nil => exact .nil _
  | cons below sound tight waits => exact .cons (by omega) sound tight waits

/-- Joined to the operand before it, an expression that is tighter than the operator is as tight as it. -/
theorem sound_binaryExpr (hg : Ground good fair) {op : BinaryOp} {left right : Expr} (hleft : AllSound good left.elements)
    (htight : Tight op.level left) (hright : AllSound good right.elements) (htighter : Tight (op.level + 1) right) :
    AllSound good (binaryExpr op left right).elements := by
  refine .expr (hg.cover hleft.exprSpan hright.exprSpan) ?_ (.append hleft hright)
  rw [ExprKind.isShaped, Bool.and_eq_true]
  exact ⟨htight, htighter⟩

/-- Settling leaves the operands that wait for operators below `level`, and one expression as tight as that. -/
theorem sound_settle (hg : Ground good fair) {level bound : Nat} (hle : level ≤ bound) {waiting : List (Expr × BinaryOp)}
    (h : Waiting good bound waiting) {right : Expr} (hright : AllSound good right.elements) (htight : Tight bound right) :
    Waiting good level (settle level waiting right).1 ∧ AllSound good (settle level waiting right).2.elements ∧
      Tight level (settle level waiting right).2 := by
  induction waiting generalizing bound right with
  | nil => exact ⟨.nil _, hright, htight.of_le hle⟩
  | cons w waiting ih =>
    cases h with
    | cons below sound tight waits =>
      rename_i left op
      rw [settle]
      split
      · rename_i hsettles
        refine ih hsettles waits (sound_binaryExpr hg sound tight hright (htight.of_le (by omega))) ?_
        exact decide_eq_true (Nat.le_refl op.level)
      · exact ⟨.cons (by omega) sound tight waits, hright, htight.of_le hle⟩

theorem sound_climb (hg : Ground good fair) {bound : Nat} {waiting : List (Expr × BinaryOp)} (h : Waiting good bound waiting)
    {last : Expr} (hlast : Expr.Operand good last) {rest : List (BinaryOp × Expr)}
    (hrest : ∀ link ∈ rest, Expr.Operand good link.2) : AllSound good (climb waiting last rest).elements := by
  induction rest generalizing bound waiting last with
  | nil => exact (sound_settle hg (Nat.zero_le _) h hlast.sound (.of_operand hlast _)).2.1
  | cons link rest ih =>
    obtain ⟨hlink, hrest⟩ := List.forall_mem_cons.1 hrest
    have hbound : Waiting good (max bound link.1.level) waiting := h.of_le (Nat.le_max_left _ _)
    obtain ⟨hwaiting, hsound, htight⟩ := sound_settle hg (Nat.le_max_right _ _) hbound hlast.sound (.of_operand hlast _)
    exact ih (.cons (Nat.lt_succ_self _) hsound htight hwaiting) hlink hrest

theorem builds_chainUpTo (hg : Ground good fair) (hL : L.Builds good fair) (level : Nat) (position : Position) (fuel : Nat) :
    Builds good fair L p (chainUpTo level position fuel) fun links => ∀ link ∈ links, Expr.Operand good link.2 := by
  induction fuel generalizing p with
  | zero => exact .pure nofun
  | succ fuel ih =>
    refine .look .kind fun kind => ?_
    split
    · refine .bind (.advance hg) fun _ _ => .bind (builds_unaryExpr hg hL _) fun _ hnext => .bind ih fun _ hrest => ?_
      exact .pure (List.forall_mem_cons.2 ⟨hnext, hrest⟩)
    · exact .pure nofun

theorem builds_chain (hg : Ground good fair) (hL : L.Builds good fair) (level : Nat) (position : Position) :
    Builds good fair L p (chain level position) fun e => AllSound good e.elements := by
  refine .bind (builds_unaryExpr hg hL _) fun _ hfirst => .look .tokensLeft fun _ => ?_
  exact .bind (builds_chainUpTo hg hL _ _ _) fun _ hrest => .pure (sound_climb hg (.nil 0) hfirst hrest)

/-! ## Records -/

theorem builds_fieldEnd (hg : Ground good fair) {field : RecordField} (h : AllSound good field.elements) :
    Builds good fair L p (fieldEnd field) fun field => AllSound good field.elements := by
  refine .bind (.takeMark hg _) fun _ _ => .ite (fun _ => .pure h) fun _ => .look .kind fun _ => ?_
  split
  · exact .pure h
  · exact .pure h
  · exact .failThen hg _

theorem builds_recordField (hg : Ground good fair) (hL : L.Builds good fair) :
    Builds good fair L p recordField fun field => AllSound good field.elements := by
  refine .bind (builds_name hg) fun _ hname => .bind (.takeMark hg _) fun _ _ => .ite (fun _ => ?_) fun _ => ?_
  · refine .bind (hL.expr _) fun _ hvalue => .known (builds_fieldEnd hg ?_)
    exact .spot (hg.cover hname hvalue.exprSpan) hvalue
  · exact .known (builds_fieldEnd hg (.spot hname .nil))

theorem builds_recordFieldsUpTo (hg : Ground good fair) (hL : L.Builds good fair) (fuel : Nat) :
    Builds good fair L p (recordFieldsUpTo fuel) fun fields => ∀ field ∈ fields, AllSound good field.elements := by
  induction fuel generalizing p with
  | zero => exact .pure nofun
  | succ fuel ih =>
    refine .look (.atMark _) fun _ => .ite (fun _ => .pure nofun) fun _ => ?_
    refine .bind (builds_recordField hg hL) fun _ hfirst => .bind ih fun _ hrest => ?_
    exact .pure (List.forall_mem_cons.2 ⟨hfirst, hrest⟩)

theorem builds_recordExpr (hg : Ground good fair) (hL : L.Builds good fair) :
    Builds good fair L p recordExpr fun e => AllSound good e.elements ∧ e.kind.isRecord = true := by
  refine .bind (.needMark hg _) fun _ hopening => .look .tokensLeft fun _ => ?_
  refine .bind (builds_recordFieldsUpTo hg hL _) fun _ hfields => .bind (.advance hg) fun _ hclosing => .pure ⟨?_, rfl⟩
  exact .expr (hg.cover hopening hclosing) rfl (.recordFields hfields)

/-! ## Statements and blocks -/

structure Binding.Sound (good : Span → Prop) (binding : Binding) : Prop where
  name : good binding.nameSpan
  type : AllSound good (optionalTypeElements binding.type)
  value : AllSound good binding.value.elements

theorem builds_binding (hg : Ground good fair) (hL : L.Builds good fair) :
    Builds good fair L p binding (Binding.Sound good) := by
  refine .bind (builds_name hg) fun _ hname => .bind (.takeMark hg _) fun _ _ => .ite (fun _ => ?_) fun _ => ?_
  · refine .bind hL.type fun _ htype => .bind (.takeMark hg _) fun _ _ => .ite (fun _ => .known ?_) fun _ => .failThen hg _
    exact .bind (hL.expr _) fun _ hvalue => .pure ⟨hname, htype, hvalue⟩
  · refine .bind (.needMark hg _) fun _ _ => .known (.bind (hL.expr _) fun _ hvalue => .pure ?_)
    exact ⟨hname, .nil, hvalue⟩

theorem builds_assignment (hg : Ground good fair) (hL : L.Builds good fair) :
    Builds good fair L p assignment (Binding.Sound good) := by
  refine .bind (builds_name hg) fun _ hname => .bind (.needMark hg _) fun _ _ => .bind (hL.expr _) fun _ hvalue => ?_
  exact .pure ⟨hname, .nil, hvalue⟩

theorem builds_loop (hg : Ground good fair) (hL : L.Builds good fair) :
    Builds good fair L p loop fun kind => AllSound good kind.elements := by
  have ranged (element : Option String) : Builds good fair L (fun _ => True) (do
      let first ← expr .head
      let range ← if ← Reader.takeMark .dotDot then .between first <$> expr .head else pure (.over first)
      return StatementKind.loop element range (← block)) fun kind => AllSound good kind.elements := by
    refine .bind (hL.expr _) fun first hfirst => .bind (.takeMark hg _) fun _ _ => ?_
    have between : Builds good fair L (fun _ => True) (LoopRange.between first <$> expr .head) fun range =>
        AllSound good range.elements :=
      .map _ (hL.expr _) fun _ hlast => .append hfirst hlast
    exact .iteBind between (.pure hfirst) fun _ hrange => .bind hL.block fun _ hbody => .pure (.append hrange hbody)
  unfold loop
  refine .bind (.needWord hg _) fun _ _ => .look (.atMark _) fun _ => .ite (fun _ => ?_) fun _ => ?_
  · exact .bind hL.block fun _ hbody => .pure (.append .nil hbody)
  · refine .look .kind fun kind => .look (.peek 1) fun second => ?_
    split
    · exact .bind (.skip hg 2) fun _ _ => .known (ranged _)
    · exact .known ⟨fun _ hs => (ranged none).builds trivial hs⟩

theorem builds_leave (hg : Ground good fair) (hL : L.Builds good fair) :
    Builds good fair L p leave fun kind => AllSound good kind.elements := by
  refine .bind (.advance hg) fun _ _ => .look .cursor fun _ => .ite (fun _ => ?_) fun _ => .pure .nil
  exact .bind (hL.expr _) fun _ hvalue => .pure hvalue

theorem builds_statementKind (hg : Ground good fair) (hL : L.Builds good fair) :
    Builds good fair L p statementKind fun kind => AllSound good kind.elements := by
  have bare : Builds good fair L p (do return StatementKind.expr (← expr .statement)) fun kind => AllSound good kind.elements :=
    .bind (hL.expr _) fun _ he => .pure he
  refine .look .kind fun kind => ?_
  split
  · exact builds_leave hg hL
  · exact .bind (.advance hg) fun _ _ => .pure .nil
  · exact .bind (.advance hg) fun _ _ => .pure .nil
  · exact builds_loop hg hL
  · exact .bind (builds_fnDecl hg hL) fun _ hdecl => .pure hdecl
  · exact .bind (builds_fnDecl hg hL) fun _ hdecl => .pure hdecl
  · exact .bind hL.block fun _ hbody => .pure hbody
  · exact .onHere hg fun _ hspan => .throw (.ofCause hspan _)
  · exact .onHere hg fun _ hspan => .throw (.ofCause hspan _)
  · exact .failAdvised hg _ _
  · exact .failAdvised hg _ _
  · exact .failAdvised hg _ _
  · exact .failAdvised hg _ _
  · exact .failAdvised hg _ _
  · refine .look .cursor fun _ => .ite (fun _ => ?_) fun _ => .ite (fun _ => ?_) fun _ => bare
    · exact .bind (builds_binding hg hL) fun _ hbinding => .pure (.spot hbinding.name (.append hbinding.type hbinding.value))
    · exact .bind (builds_assignment hg hL) fun _ hbinding => .pure (.spot hbinding.name hbinding.value)
  · exact .look (.peek 1) fun _ => .ite (fun _ => .failAdvised hg _ _) fun _ => bare
  · exact bare

theorem builds_statement (hg : Ground good fair) (hL : L.Builds good fair) :
    Builds good fair L p statement fun statement => AllSound good statement.elements := by
  refine .onHere hg fun _ hstart => .bind (builds_statementKind hg hL) fun _ hkind => ?_
  exact .bind (.spanFrom hg hstart) fun _ hspan => .pure (.spot hspan hkind)

theorem builds_blockBody (hg : Ground good fair) (hL : L.Builds good fair) :
    Builds good fair L p blockBody fun block => AllSound good block.elements := by
  refine .bind (.needMark hg _) fun _ hopening => .bind (.recovering hg (builds_statement hg hL) _ _) fun _ hstatements => ?_
  refine .look (.atMark _) fun _ => .ite (fun _ => ?_) fun _ => ?_
  · refine .bind (.advance hg) fun _ hclosing => .pure ?_
    exact .spot (hg.cover hopening hclosing) (.statements hstatements)
  · refine .onHere hg fun _ hhere => .look .kind fun _ => .look .atEnd fun _ => .look .halted fun _ => .ite (fun _ => ?_) fun _ => ?_
    · refine .bind (.record hg (.ofCause hhere _)) fun _ _ => .onHere hg fun _ hend => .pure ?_
      exact .spot (hg.cover hopening hend) (.statements hstatements)
    · exact .throw (.ofCause hhere _)

/-! ## Items -/

theorem builds_pathRestUpTo (hg : Ground good fair) (fuel : Nat) :
    Builds good fair L p (pathRestUpTo fuel) fun _ => True := by
  induction fuel generalizing p with
  | zero => exact .pure trivial
  | succ fuel ih =>
    refine .bind (.takeMark hg _) fun _ _ => .ite (fun _ => ?_) fun _ => .pure trivial
    exact .bind (builds_anyName hg) fun _ _ => .bind ih fun _ _ => .pure trivial

theorem builds_exposed (hg : Ground good fair) : Builds good fair L p exposed fun exposed => good exposed.span := by
  refine .look .kind fun kind => ?_
  split
  · exact .bind (.advance hg) fun _ htoken => .pure htoken
  · exact .bind (.advance hg) fun _ htoken => .pure htoken
  · exact .bind (.advance hg) fun _ htoken => .pure htoken
  · exact .failUnexpected hg _

theorem builds_importDecl (hg : Ground good fair) :
    Builds good fair L p importDecl fun decl => AllSound good decl.elements := by
  refine .bind (.takeWord hg _) fun foreign _ => .bind (.needWord hg _) fun _ _ => .bind (.takeMark hg _) fun relative _ => ?_
  refine .bind (builds_anyName hg) fun first _ => .look .tokensLeft fun _ => .bind (builds_pathRestUpTo hg _) fun rest _ => ?_
  have renamed : Builds good fair L (fun _ => True) ((some ·.1) <$> anyName) fun _ => True :=
    .map _ (builds_anyName hg) fun _ _ => trivial
  refine .bind (.takeWord hg _) fun _ _ => .iteBind renamed (.pure trivial) fun renamed _ => .bind (.takeMark hg _) fun _ _ => ?_
  have imported {names : List Exposed} (hnames : ∀ exposed ∈ names, good exposed.span) :
      AllSound good (Import.elements ⟨foreign, relative, first.1 :: rest, renamed, names⟩) :=
    .cons ⟨rfl, nofun⟩ (.spots hnames)
  refine .ite (fun _ => ?_) fun _ => .known (.pure (imported nofun))
  refine .bind (.separated hg _ (builds_exposed hg)) fun _ hnames => ?_
  exact .bind (.needMark hg _) fun _ _ => .known (.pure (imported hnames))

def Member.elements : Member → List Element
  | .field f => f.elements
  | .constructor c => c.elements

theorem builds_member (hg : Ground good fair) (hL : L.Builds good fair) :
    Builds good fair L p member fun member => AllSound good member.elements := by
  refine .onCursor fun c _ hc => ?_
  have field (text : String) : Builds good fair L (fun _ => True) (do
      let declared ← type
      return Member.field ⟨text, declared, c.span.cover declared.span⟩) fun member => AllSound good member.elements :=
    .bind hL.type fun _ htype => .pure (.spot (hg.cover (hg.span hc) htype.typeSpan) htype)
  dsimp only
  split
  · exact .bind (.skip hg 2) fun _ _ => field _
  · exact .bind (.skip hg 2) fun _ _ => field _
  · refine .bind (.advance hg) fun _ _ => .look (.atMark _) fun _ => .iteBind (builds_params hg hL (builds_name hg)) (.pure .nil) ?_
    exact fun _ hitems => .bind (.spanFrom hg (hg.span hc)) fun _ hspan => .pure (.spot hspan hitems)
  · exact .failAdvised hg _ _

def optionalBodyElements : Option TypeBody → List Element
  | none => []
  | some body => body.elements

theorem Member.span_of_sound {member : Member} (h : AllSound good member.elements) :
    match member with
    | .field f => good f.span
    | .constructor c => good c.span := by
  cases member with
  | field f => exact h.head.placed _ rfl
  | constructor c => exact h.head.placed _ rfl

theorem builds_addMember (hg : Ground good fair) {body : Option TypeBody} (h : AllSound good (optionalBodyElements body))
    {member : Member} (hmember : AllSound good member.elements) :
    Builds good fair L p (addMember body member) fun body => AllSound good (optionalBodyElements body) := by
  have added {β : Type} {f : β → List Element} {items : List β} {item : β} (hitems : AllSound good (items.flatMap f))
      (hitem : AllSound good (f item)) : AllSound good ((items ++ [item]).flatMap f) := by
    rw [List.flatMap_append, List.flatMap_singleton]
    exact .append hitems hitem
  have hspan := Member.span_of_sound hmember
  unfold addMember
  split
  · exact .pure (added h hmember)
  · exact .pure (added h hmember)
  · exact .bind (.record hg (.ofCause hspan _)) fun _ _ => .pure h
  · exact .bind (.record hg (.ofCause hspan _)) fun _ _ => .pure h
  · exact .pure (.append hmember .nil)
  · exact .pure (.append hmember .nil)

theorem builds_membersUpTo (hg : Ground good fair) (hL : L.Builds good fair) {body : Option TypeBody}
    (h : AllSound good (optionalBodyElements body)) (fuel : Nat) :
    Builds good fair L p (membersUpTo body fuel) fun body => AllSound good (optionalBodyElements body) := by
  induction fuel generalizing body p with
  | zero => exact .pure h
  | succ fuel ih =>
    refine .look (.atMark _) fun _ => .ite (fun _ => .pure h) fun _ => .bind (builds_member hg hL) fun _ hmember => ?_
    exact .bind (builds_addMember hg h hmember) fun _ hbody => .bind (.takeMark hg _) fun _ _ => ih hbody

theorem builds_members (hg : Ground good fair) (hL : L.Builds good fair) :
    Builds good fair L p members fun body => AllSound good body.elements := by
  have hnone : AllSound good (optionalBodyElements none) := .nil
  refine .bind (.needMark hg _) fun _ _ => .look .tokensLeft fun _ => .bind (builds_membersUpTo hg hL hnone _) fun body hbody => ?_
  refine .bind (.needMark hg _) fun _ _ => .pure ?_
  cases body with
  | none => exact .nil
  | some body => exact hbody

theorem builds_declaredType (hg : Ground good fair) (keyword : Bool) :
    Builds good fair L p (declaredType keyword) fun named => good named.2 := by
  refine .ite (fun _ => builds_anyName hg) fun _ => .look .kind fun kind => ?_
  split
  · exact .bind (.advance hg) fun _ htoken => .pure htoken
  · exact .failUnexpected hg _

theorem builds_typeDecl (hg : Ground good fair) (hL : L.Builds good fair) :
    Builds good fair L p typeDecl fun decl => AllSound good decl.elements := by
  refine .bind (.takeWord hg _) fun _ _ => .bind (builds_declaredType hg _) fun _ hname => .look (.atMark _) fun _ => ?_
  refine .iteBind (builds_params hg hL (builds_anyName hg)) (.pure .nil) fun _ hitems => .bind (.needMark hg _) fun _ _ => ?_
  have synonym : Builds good fair L (fun _ => True) (TypeBody.synonym <$> type) fun body => AllSound good body.elements :=
    .map _ hL.type fun _ htype => htype
  refine .look (.atMark _) fun _ => .iteBind (builds_members hg hL) synonym fun _ hbody => .pure ?_
  exact .spot hname (.append hitems hbody)

theorem builds_implFn (hg : Ground good fair) (hL : L.Builds good fair) :
    Builds good fair L p implFn fun decl => AllSound good decl.elements := by
  refine .look .kind fun kind => ?_
  split
  · exact builds_fnDecl hg hL
  · exact builds_fnDecl hg hL
  · exact .failUnexpected hg _

theorem builds_implDecl (hg : Ground good fair) (hL : L.Builds good fair) :
    Builds good fair L p implDecl fun decl => AllSound good decl.elements := by
  have fns {traitType : Option TypeExpr} (htrait : AllSound good (optionalTypeElements traitType)) {selfType : TypeExpr}
      (hself : AllSound good selfType.elements) : Builds good fair L (fun _ => True) (do
        let _ ← Reader.needMark .lBrace
        let fns ← JuiceSyntax.recovering .fn (·.isMark .rBrace) implFn
        let _ ← Reader.needMark .rBrace
        return (⟨traitType, selfType, fns⟩ : Impl)) fun decl => AllSound good decl.elements := by
    refine .bind (.needMark hg _) fun _ _ => .bind (.recovering hg (builds_implFn hg hL) _ _) fun _ hfns => ?_
    exact .bind (.needMark hg _) fun _ _ => .pure (.append (.append htrait hself) (.flatMap hfns))
  refine .bind (.needWord hg _) fun _ _ => .bind hL.type fun first hfirst => .bind (.takeWord hg _) fun _ _ => ?_
  have htrait : AllSound good (optionalTypeElements (some first)) := hfirst
  refine .ite (fun _ => ?_) fun _ => .known (fns .nil hfirst)
  exact .bind hL.type fun _ hsecond => .known (fns htrait hsecond)

theorem builds_itemKind (hg : Ground good fair) (hL : L.Builds good fair) :
    Builds good fair L p itemKind fun kind => AllSound good kind.elements := by
  refine .onCursor fun c _ hc => ?_
  split
  · exact .bind (builds_importDecl hg) fun _ hdecl => .pure hdecl
  · exact .bind (builds_importDecl hg) fun _ hdecl => .pure hdecl
  · exact .bind (builds_fnDecl hg hL) fun _ hdecl => .pure hdecl
  · exact .bind (builds_fnDecl hg hL) fun _ hdecl => .pure hdecl
  · exact .bind (builds_typeDecl hg hL) fun _ hdecl => .pure hdecl
  · exact .bind (builds_implDecl hg hL) fun _ hdecl => .pure hdecl
  · exact .throw (.ofCause (hg.span hc) _)
  · exact .throw (.ofCause (hg.span hc) _)
  · refine .ite (fun _ => ?_) fun _ => .ite (fun _ => ?_) fun _ => .throw (.ofCause (hg.peekSpan hc 1) _)
    · exact .bind (builds_binding hg hL) fun _ hbinding => .pure (.spot hbinding.name (.append hbinding.type hbinding.value))
    · exact .bind (builds_assignment hg hL) fun _ hbinding => .pure (.spot hbinding.name hbinding.value)
  · exact .ite (fun _ => .bind (builds_typeDecl hg hL) fun _ hdecl => .pure hdecl) fun _ => .failUnexpected hg _

theorem builds_item (hg : Ground good fair) (hL : L.Builds good fair) :
    Builds good fair L p item fun item => AllSound good item.elements := by
  unfold item
  refine .onHere hg fun _ hstart => .bind (.takeWord hg _) fun _ _ => .onCursor fun c _ hc => .ite (fun _ => ?_) fun _ => ?_
  · exact .throwThen (.ofCause (hg.cover hstart (hg.span hc)) _)
  · refine .bind (builds_itemKind hg hL) fun _ hkind => .bind (.spanFrom hg hstart) fun _ hspan => .pure ?_
    exact .spot hspan hkind

end Grammar

/-! ## Levels -/

theorem tooDeep_builds (hg : Ground good fair) {setting : Setting} {α : Type} {r : Reader α} {post : α → Prop}
    (h : r (level setting 0) = tooDeep setting.options.maxDepth) : Builds good fair (level setting 0) p r post := by
  refine ⟨fun _ hs => ?_⟩
  rw [h]
  exact ⟨hs, .ofCause (hg.span hs.cursor) _⟩

theorem level_builds (hg : Ground good fair) (setting : Setting) (n : Nat) : (level setting n).Builds good fair := by
  induction n with
  | zero =>
    exact ⟨fun _ => tooDeep_builds hg rfl, fun _ => tooDeep_builds hg rfl, tooDeep_builds hg rfl, tooDeep_builds hg rfl,
      tooDeep_builds hg rfl⟩
  | succ n ih =>
    have lift {β : Type} {q : Cursor → Prop} {r r' : Reader β} {post : β → Prop}
        (h : Builds good fair (level setting n) q r post) (heq : r' (level setting (n + 1)) = r (level setting n)) :
        Builds good fair (level setting (n + 1)) q r' post := by
      refine ⟨fun hp hs => ?_⟩
      rw [heq]
      exact h.builds hp hs
    exact ⟨fun position => lift (builds_chain hg ih 1 position) rfl,
      fun position => lift (builds_chain hg ih operandLevel position) rfl, lift (builds_blockBody hg ih) rfl,
      lift (builds_typeExpr hg ih) rfl, lift (builds_recordExpr hg ih) rfl⟩

/-! ## Readings -/

/-- A reading of fair tokens gives sound items, with good spans in all that it reports. -/
theorem readItems_sound (hg : Ground good fair) (setting : Setting) {tokens : List Token} (h : fair tokens) :
    AllSound good ((readItems setting tokens).value.flatMap Item.elements) ∧
      (∀ fault ∈ (readItems setting tokens).faults, fault.Anchored good) ∧
      ∀ span ∈ (readItems setting tokens).macroBodies, good span := by
  have hL := level_builds hg setting setting.options.maxDepth
  have hitems : Builds good fair (level setting setting.options.maxDepth) (fun _ => True) items fun items =>
      ∀ item ∈ items, AllSound good item.elements :=
    .recovering hg (builds_item hg hL) _ _
  have hending := hitems.builds trivial (.ofTokens h)
  unfold readItems Reader.run
  cases hread : items (level setting setting.options.maxDepth) (.ofTokens tokens) with
  | ok value s =>
    rw [hread] at hending
    exact ⟨.flatMap hending.2, hending.1.faults, hending.1.macroBodies⟩
  | error fault s =>
    rw [hread] at hending
    exact ⟨.nil, hending.1.faults, hending.1.macroBodies⟩

theorem readExpr_sound (hg : Ground good fair) (setting : Setting) {tokens : List Token} (h : fair tokens) :
    AllSound good (optionalExprElements (readExpr setting tokens).value) ∧
      (∀ fault ∈ (readExpr setting tokens).faults, fault.Anchored good) ∧
      ∀ span ∈ (readExpr setting tokens).macroBodies, good span := by
  have hL := level_builds hg setting setting.options.maxDepth
  have hexpr : Builds good fair (level setting setting.options.maxDepth) (fun _ => True) wholeExpr fun e =>
      AllSound good (optionalExprElements e) := by
    refine .bind (.attempt (hL.expr .value)) fun result hresult => ?_
    cases result with
    | ok e =>
      refine .look .atEnd fun _ => .ite (fun _ => .pure hresult) fun _ => ?_
      exact .bind (.unexpected hg _ _) fun _ hfault => .bind (.record hg hfault) fun _ _ => .pure .nil
    | error fault => exact .bind (.record hg hresult) fun _ _ => .pure .nil
  have hending := hexpr.builds trivial (.ofTokens h)
  unfold readExpr Reader.run
  cases hread : wholeExpr (level setting setting.options.maxDepth) (.ofTokens tokens) with
  | ok value s =>
    rw [hread] at hending
    exact ⟨hending.2, hending.1.faults, hending.1.macroBodies⟩
  | error fault s =>
    rw [hread] at hending
    exact ⟨.nil, hending.1.faults, hending.1.macroBodies⟩

/-- A document holds what was lexed and what was read; in strict mode it may hold less of both. -/
structure Document.Holds (source : String) (options : Options) (d : Document) : Prop where
  shebang : d.program.shebang = (lex source).shebang
  span : d.program.span = ⟨0, source.utf8ByteSize⟩
  items : d.program.items ⊆ (readItems (.ofSource source options) (lex source).tokens).value
  tokens : d.tokens = (lex source).tokens
  comments : d.comments = (lex source).comments
  lexFaults : d.lexFaults ⊆ (lex source).faults
  faults : d.faults ⊆ (readItems (.ofSource source options) (lex source).tokens).faults

theorem Document.read_holds (source : String) (options : Options) : (Document.read source options).Holds source options := by
  have houtside : outsideBodies (readItems (.ofSource source options) (lex source).tokens).macroBodies (lex source).faults ⊆
      (lex source).faults := List.filter_sublist.subset
  unfold Document.read
  dsimp only
  split
  · constructor
    all_goals dsimp only
    · exact List.nil_subset _
    · exact houtside
    · exact List.nil_subset _
  · constructor
    all_goals dsimp only
    · exact List.Subset.refl _
    · exact houtside
    · exact List.Subset.refl _

end JuiceSyntax
