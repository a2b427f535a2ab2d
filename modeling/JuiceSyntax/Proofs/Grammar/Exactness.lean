/-
  The nodes of a program in which every brace is closed are exact: one lemma for each production says what
  it makes of the tokens it consumes, by the rules for steps. A node that goes on from what was read before it
  (the operand of a postfix form, the left side of a type) takes that part's tokens with its own.

  Two shapes are not built in the order of the text. `ElseOf` follows the branches of a conditional,
  which are folded from the last one; `WaitsOf` and `LinksOf` follow a chain of operators while it is
  grouped.
-/
import JuiceSyntax.Proofs.Grammar.Covering

namespace JuiceSyntax

open Reader Grammar

variable {L : Level} {p : Cursor → Prop} {α : Type}

namespace Grammar

open Covers

/-! ## Literals -/

theorem covers_fragment (hL : L.Covers) {tokens : List Token} (htokens : ∃ lo hi, Laid lo tokens hi) (span : Span) :
    Covers L p [] (fragment tokens span) fun range e =>
      range = [] ∧ ∃ body last, tokens = body ++ [last] ∧ Whole body e.frame := by
  unfold fragment
  exact .ite (.throwThen _) (.whole htokens (hL.expr .value) _ _)

theorem covers_segments (hL : L.Covers) {pieces : List Piece}
    (h : ∀ tokens span, .fragment tokens span ∈ pieces → ∃ lo hi, Laid lo tokens hi) :
    Covers L p [] (segments pieces) fun range read => range = [] ∧ Fits (.pieces pieces) (segmentFrames read) := by
  induction pieces generalizing p with
  | nil => exact .pure fun _ => ⟨rfl, .nil _⟩
  | cons piece rest ih =>
    have hrest {q : Cursor → Prop} := ih (p := q) fun tokens span hmem => h tokens span (List.mem_cons_of_mem _ hmem)
    cases piece with
    | text text span =>
      rw [segments]
      exact .bind hrest fun _ _ => .pure fun _ hread => ⟨hread.1, .text text span hread.2⟩
    | escape value raw span =>
      rw [segments]
      exact .bind hrest fun _ _ => .pure fun _ hread => ⟨hread.1, .escape value raw span hread.2⟩
    | fragment tokens span =>
      rw [segments]
      refine .bind (covers_fragment hL (h tokens span List.mem_cons_self) span) fun r e => .bind hrest fun r' _ => .pure ?_
      rintro - ⟨rfl, hread⟩ ⟨rfl, body, last, rfl, hwhole⟩
      exact ⟨rfl, .fragment span hwhole.fits hread⟩
    | indent span =>
      rw [segments]
      exact hrest.imp fun _ _ _ hread => ⟨hread.1, .indent span hread.2⟩

theorem covers_stringLiteral (hL : L.Covers) {multiline : Bool} {pieces : List Piece}
    (h : ∀ c, p c → c.kind = .str multiline pieces) : Makes L p (stringLiteral multiline pieces) Expr.frame := by
  refine .given (bracesClosed_of_composed (composed_stringLiteral fun _ _ _ _ _ _ => trivial) hL.grows)
    (fun c hp hb => hb.fineKind multiline pieces (h c hp)) fun hpieces => ?_
  refine .bind (.advanceAt h rfl) fun r token => .bind (covers_segments hL hpieces) fun r' read => .pure ?_
  rintro - ⟨rfl, hread⟩ ⟨rfl, hkind⟩
  refine ⟨token.span, segmentFrames read, rfl, spans_single token, ?_⟩
  have hfits := Fits.literal hkind hread (.nil (.tokens []))
  rwa [List.append_nil] at hfits

theorem covers_listLiteral (hL : L.Covers) : Makes L p listLiteral Expr.frame := by
  refine .bind (.needMark _) fun _ _ => .bind (.separated _ (hL.expr _)) fun _ items => .bind (.needMark _) fun _ _ =>
    .pure fun hranged hclosing hitems hopening => ?_
  rw [← exprFrames_eq_map] at hitems
  exact .of_cover hranged ((hopening.starts.append _).append _) (hclosing.ends.append _) ((hitems.before _).after _)

theorem covers_atom {kind : Kind} (h : ∀ c, p c → c.kind = kind) (hk : kind.isDone = false) {content : ExprKind}
    (hcontent : content.frames = []) : Makes L p (atom content) Expr.frame := by
  refine .bind (.advanceAt h hk) fun _ token => .pure ?_
  rintro - ⟨rfl, -⟩
  exact ⟨token.span, content.frames, rfl, spans_single token, hcontent ▸ .nil _⟩

/-! ## Functions and parameters -/

theorem covers_name : Covers L p [] name fun range named => Spans range named.2 := by
  refine .onKind fun kind => ?_
  split
  · refine .bind (.advanceAt (fun _ hc => hc.2) rfl) fun _ token => .pure ?_
    rintro - ⟨rfl, -⟩
    exact spans_single token
  · exact .failUnexpected _

theorem covers_anyName : Covers L p [] anyName fun range named => Spans range named.2 := by
  have named {kind : Kind} (hk : kind.isDone = false) (text : String) :
      Covers L (fun c => p c ∧ c.kind = kind) [] (do return (text, (← advance).span)) fun range named => Spans range named.2 := by
    refine .bind (.advanceAt (fun _ hc => hc.2) hk) fun _ token => .pure ?_
    rintro - ⟨rfl, -⟩
    exact spans_single token
  refine .onKind fun kind => ?_
  split
  · exact named rfl _
  · exact named rfl _
  · exact .failUnexpected _

theorem covers_param (hL : L.Covers) {named : Reader (String × Span)}
    (h : Covers L p [] named fun range named => Spans range named.2) : Makes L p (param named) Param.frame := by
  refine .bind h fun _ _ => .takenThen (.takeMark _) (fun token => ?_) (.pure fun _ hname => ⟨_, [], rfl, hname, .nil _⟩)
  exact .bind hL.type fun _ _ => .pure fun hranged htype hname =>
    .of_cover hranged ((hname.starts.append _).append _) (htype.spans_type.ends.append _) (htype.fits.before _)

theorem covers_params (hL : L.Covers) {named : Reader (String × Span)}
    (h : Covers L (fun _ => True) [] named fun range named => Spans range named.2) :
    Covers L p [] (params named) fun range items => Fits (.tokens range) (paramFrames items) := by
  refine .bind (.needMark _) fun _ _ => .bind (.separated _ (covers_param hL h)) fun _ items =>
    .bind (.needMark _) fun _ _ => .pure fun _ _ hitems _ => ?_
  rw [paramFrames_eq_map]
  exact (hitems.before _).after _

theorem covers_fnName :
    Covers L p [] fnName fun range title => Fits (.tokens range) (title.toList.map fun name => .leaf name.span) := by
  have named {kind : Kind} (hk : kind.isDone = false) (text : String) (isMacro : Bool) :
      Covers L (fun c => p c ∧ c.kind = kind) [] (do return some ⟨text, isMacro, (← advance).span⟩) fun range (title : Option FnName) =>
        Fits (.tokens range) (title.toList.map fun name => .leaf name.span) := by
    refine .bind (.advanceAt (fun _ hc => hc.2) hk) fun _ token => .pure ?_
    rintro - ⟨rfl, -⟩
    exact (Whole.of_leaf (spans_single token)).fits
  refine .onKind fun kind => ?_
  split
  · exact named rfl _ _
  · exact named rfl _ _
  · exact .pure fun _ => .nil _

theorem covers_fnDecl (hL : L.Covers) : Makes L p fnDecl FnDecl.frame := by
  refine .startHere fun _ => .bind (.takeWord _) fun _ _ => .bind (.needWord _) fun _ _ => .bind covers_fnName fun _ _ =>
    .look (.atMark _) fun _ => .iteBind (covers_params hL covers_name) (.pure fun _ => .nil _) fun _ _ => ?_
  refine .bind (.takeMark _) fun _ _ =>
    .iteBind (m := fun range result => Fits (.tokens range) (optionalTypeFrames result))
      (.map _ hL.type fun _ _ htype => htype.fits) (.pure fun _ => .nil _) fun _ _ => ?_
  refine .bind hL.block fun _ _ => .spanFrom _ fun _ =>
    .pure fun hranged hstop hbody hresult _ hitems htitle _ _ hstart => ?_
  exact .of_cover hranged (hstart (List.append_ne_nil_of_right_ne_nil _ hbody.ne_nil))
    (hstop (List.append_ne_nil_of_right_ne_nil _ hbody.ne_nil))
    (((((htitle.before _).append hitems).after _).append hresult).append hbody.fits)

/-! ## Types -/

theorem covers_argLabel : Covers L p [] argLabel fun _ _ => True := by
  refine .onKind fun kind => .onPeek 1 fun second => ?_
  split
  · exact .bind (.skip 2) fun _ _ => .pure fun _ _ => trivial
  · exact .pure fun _ => trivial

theorem covers_typeArg (hL : L.Covers) : Makes L p typeArg TypeArg.frame :=
  .startHere fun _ => .bind covers_argLabel fun _ _ => .bind hL.type fun _ _ => .pure fun hranged htype _ hstart =>
    .of_cover hranged (hstart (List.append_ne_nil_of_right_ne_nil _ htype.ne_nil)) (htype.spans_type.ends.append _)
      (htype.fits.before _)

/-- The name is behind. -/
theorem covers_typeCall (hL : L.Covers) {front : List Token} (callee : String) (calleeSpan : Span) :
    Covers L p front (typeCall callee calleeSpan) fun range t => Spans front calleeSpan → Whole range t.frame := by
  refine .bind (.needMark _) fun _ _ => .bind (.separated _ (covers_typeArg hL)) fun _ args => .bind (.needMark _) fun _ _ =>
    .pure fun hranged hclosing hargs _ hcallee => ?_
  rw [← typeArgFrames_eq_map] at hargs
  exact .of_cover hranged (((hcallee.starts.append _).append _).append _) (hclosing.ends.append _)
    ((((Whole.of_leaf hcallee).fits.after _).append hargs).after _)

theorem covers_typeParens (hL : L.Covers) : Makes L p typeParens TypeExpr.frame := by
  unfold typeParens
  refine .bind (.needMark _) fun _ _ => .look (.atMark _) fun _ => .ite (.failAdvisedThen _ _) ?_
  refine .bind hL.type fun _ first => .bind (.takeMark _) fun _ _ => .ite (.iteMark _ ?_ ?_) ?_
  · refine .bind (.advanceAt (fun _ hc => hc.2) rfl) fun _ token => .bind (.record _) fun _ _ => .pure ?_
    rintro hranged rfl ⟨rfl, -⟩ - hfirst hopening
    rw [List.append_nil] at hranged ⊢
    exact .of_cover hranged (((hopening.starts.append _).append _).append _) ((spans_single token).ends.append _)
      (((hfirst.fits.before _).after _).after _)
  · refine .bind (.separated _ hL.type) fun _ rest => .bind (.needMark _) fun _ _ =>
      .pure fun hranged hclosing hrest _ hfirst hopening => ?_
    rw [← typeFrames_eq_map] at hrest
    exact .of_cover hranged (((((hopening.starts.append _).append _).append _).append _)) (hclosing.ends.append _)
      ((((hfirst.fits.before _).after _).append hrest).after _)
  · exact .bind (.needMark _) fun _ _ => .pure fun hranged hclosing _ hfirst hopening =>
      .of_cover hranged (((hopening.starts.append _).append _).append _) (hclosing.ends.append _)
        (((hfirst.fits.before _).after _).after _)

theorem covers_typeOfName (hL : L.Covers) {text : String} {kind : Kind} {content : TypeKind}
    (h : ∀ c, p c → c.kind = kind) (hk : kind.isDone = false) (hcontent : content.frames = []) :
    Makes L p (typeOfName text content) TypeExpr.frame := by
  refine .bind (.advanceAt h hk) fun _ token => .look (.atMark _) fun _ => .ite ?_ ?_
  · refine (covers_typeCall hL _ _).imp ?_
    rintro tokens t - hcall ⟨rfl, -⟩
    exact hcall (spans_single token)
  · refine .pure ?_
    rintro - ⟨rfl, -⟩
    exact ⟨token.span, content.frames, rfl, spans_single token, hcontent ▸ .nil _⟩

theorem covers_literalType {literal : Reader Expr} (h : Makes L p literal Expr.frame) :
    Makes L p (literalType literal) TypeExpr.frame :=
  .bind h fun _ _ => .pure fun _ hvalue => ⟨_, _, rfl, hvalue.spans_expr, hvalue.fits⟩

theorem covers_typeAtom (hL : L.Covers) : Makes L p typeAtom TypeExpr.frame := by
  refine .onKind fun kind => ?_
  split
  · refine covers_typeOfName hL (fun _ hc => hc.2) rfl ?_
    cases BuiltinType.ofName? _ <;> rfl
  · exact covers_typeOfName hL (fun _ hc => hc.2) rfl rfl
  · exact covers_literalType (covers_atom (fun _ hc => hc.2) rfl rfl)
  · exact covers_literalType (covers_atom (fun _ hc => hc.2) rfl rfl)
  · exact covers_literalType (covers_atom (fun _ hc => hc.2) rfl rfl)
  · exact covers_literalType (covers_stringLiteral hL fun _ hc => hc.2)
  · exact covers_literalType (covers_listLiteral hL)
  · exact covers_typeParens hL
  · exact .failUnexpected _

/-- The left side is behind. -/
theorem covers_typeRestUpTo (hL : L.Covers) {front : List Token} (left : TypeExpr) (fuel : Nat) :
    Covers L p front (typeRestUpTo left fuel) fun range t => Whole front left.frame → Whole range t.frame := by
  induction fuel generalizing front left p with
  | zero => exact .pure fun _ hleft => hleft
  | succ fuel ih =>
    refine .onKind fun kind => ?_
    split
    · rename_i op hop
      have hmid : kind.isDone = false := by
        cases kind with
        | done => cases hop
        | _ => rfl
      refine .bind (.advanceAt (fun _ hc => hc.2) hmid) fun _ _ => .bind (covers_typeAtom hL) fun _ right => ?_
      exact (ih _).imp fun _ _ hranged hnext hright _ hleft =>
        hnext (.pair hranged hleft hright hleft.spans_type hright.spans_type)
    · exact .pure fun _ hleft => hleft

theorem covers_typeExpr (hL : L.Covers) : Makes L p typeExpr TypeExpr.frame :=
  .bind (covers_typeAtom hL) fun _ _ => .look .tokensLeft fun _ => covers_typeRestUpTo hL _ _

/-! ## Arguments, macros and parentheses -/

theorem covers_arg (hL : L.Covers) : Makes L p arg Arg.frame :=
  .startHere fun _ => .bind covers_argLabel fun _ _ => .bind (hL.expr _) fun _ _ => .pure fun hranged hvalue _ hstart =>
    .of_cover hranged (hstart (List.append_ne_nil_of_right_ne_nil _ hvalue.ne_nil)) (hvalue.spans_expr.ends.append _)
      (hvalue.fits.before _)

theorem covers_args (hL : L.Covers) :
    Covers L p [] args fun range result => Fits (.tokens range) (argFrames result.1) ∧ Ends range result.2 := by
  refine .bind (.needMark _) fun _ _ => .bind (.separated _ (covers_arg hL)) fun _ items => .bind (.needMark _) fun _ _ =>
    .pure fun _ hclosing hitems _ => ?_
  rw [argFrames_eq_map]
  exact ⟨(hitems.before _).after _, hclosing.ends.append _⟩

theorem covers_macroBody : Covers L p [] macroBody fun range body => Spans range body.span := by
  refine .bind (.needMark _) fun _ _ => .onCursor fun c => .bind (.skip _) fun _ _ =>
    .lookAt (f := Cursor.atEnd) (fun _ => rfl) fun ended => ?_
  split
  · exact .look .here fun _ => .throwThen _
  · rename_i hended
    refine .bind (.advanceMid fun c hc _ => hc.2.trans (by simpa using hended)) fun _ token => .bind (.noteBody _) fun _ _ =>
      .look (.sourceText _) fun _ => .pure ?_
    rintro hranged rfl rfl - hopening
    rw [List.append_nil] at hranged ⊢
    exact hranged.cover ((hopening.starts.append _).append _) ((spans_single token).ends.append _)

theorem covers_macroCall (hL : L.Covers) {text : String} (h : ∀ c, p c → c.kind = .macroName text) (position : Position) :
    Makes L p (macroCall text position) Expr.frame := by
  have bodied {pre : List Token} (span : Span) (parenthesized : Bool) (items : List Arg) :
      Covers L (fun _ => True) pre (do
        let body ← macroBody
        return ⟨.macroCall text span parenthesized items (some body), span.cover body.span⟩) fun tokens (e : Expr) =>
        Starts pre span → Fits (.tokens pre) (.leaf span :: argFrames items) → Whole tokens e.frame :=
    .bind covers_macroBody fun _ _ => .pure fun hranged hbody hname hitems =>
      .of_cover hranged (hname.append _) (hbody.ends.append _) (hitems.append (Whole.of_leaf hbody).fits)
  refine .bind (.advanceAt h rfl) fun _ token => .look (.atMark _) fun parenthesized => ?_
  have named : Whole [token] (.leaf token.span) := .of_leaf (spans_single token)
  cases parenthesized with
  | false =>
    refine .known (.look (.atMark _) fun _ => .ite ((bodied _ _ _).anywhere.imp ?_) (.failUnexpected _))
    rintro tokens e - hbody ⟨rfl, -⟩
    exact hbody (spans_single token).starts named.fits
  | true =>
    refine .bind (covers_args hL) fun _ result => .look (.atMark _) fun _ => .ite ((bodied _ _ _).imp ?_) (.pure ?_)
    · rintro tokens e - hbody ⟨hitems, -⟩ ⟨rfl, -⟩
      exact hbody ((spans_single token).starts.append _) (named.fits.append hitems)
    · rintro hranged ⟨hitems, hclosing⟩ ⟨rfl, -⟩
      refine .of_cover hranged ((spans_single token).starts.append _) (hclosing.append _) ?_
      show Fits _ (.leaf token.span :: (argFrames result.1 ++ []))
      rw [List.append_nil]
      exact named.fits.append hitems

theorem covers_parens (hL : L.Covers) : Makes L p parens Expr.frame := by
  unfold parens
  refine .bind (.needMark _) fun _ _ => .look (.atMark _) fun _ => .ite (.failAdvisedThen _ _) ?_
  refine .bind (hL.expr _) fun _ first => .bind (.takeMark _) fun _ _ => .ite (.iteMark _ ?_ ?_) ?_
  · refine .bind (.advanceAt (fun _ hc => hc.2) rfl) fun _ token => .bind (.record _) fun _ _ => .pure ?_
    rintro hranged rfl ⟨rfl, -⟩ - hfirst hopening
    rw [List.append_nil] at hranged ⊢
    exact .of_cover hranged (((hopening.starts.append _).append _).append _) ((spans_single token).ends.append _)
      (((hfirst.fits.before _).after _).after _)
  · refine .bind (.separated _ (hL.expr _)) fun _ rest => .bind (.needMark _) fun _ _ =>
      .pure fun hranged hclosing hrest _ hfirst hopening => ?_
    rw [← exprFrames_eq_map] at hrest
    exact .of_cover hranged (((((hopening.starts.append _).append _).append _).append _)) (hclosing.ends.append _)
      ((((hfirst.fits.before _).after _).append hrest).after _)
  · exact .bind (.needMark _) fun _ _ => .pure fun hranged hclosing _ hfirst hopening =>
      .of_cover hranged (((hopening.starts.append _).append _).append _) (hclosing.ends.append _)
        (((hfirst.fits.before _).after _).after _)

/-! ## Braces -/

theorem covers_blockExpr (hL : L.Covers) : Makes L p blockExpr Expr.frame :=
  .bind hL.block fun _ _ => .pure fun _ hbody => ⟨_, _, rfl, hbody.spans_block, hbody.fits⟩

theorem groupLength_pos {c : Cursor} (h : c.kind = .mark .lBrace) : 0 < groupLength 0 c.rest := by
  cases hrest : c.rest with
  | nil => simp [Cursor.kind, Cursor.current, hrest] at h
  | cons token rest =>
    rw [Cursor.kind_of_rest hrest] at h
    simp [groupLength, h, Kind.isDone, Kind.isMark]

/-- A group that is passed over stands for an empty block. -/
theorem covers_unresolvable (h : ∀ c, p c → c.kind = .mark .lBrace) : Makes L p unresolvable Expr.frame := by
  refine .startHere fun start => .onCursor fun c => .bind (.skipSome fun c' hc => ?_) fun range _ =>
    .spanFrom _ fun stop => .bind (.record _) fun _ _ => .pure ?_
  · have hkind := h c' hc.1.1
    exact ⟨by rw [Cursor.atEnd, hkind]; rfl, hc.2 ▸ groupLength_pos hkind⟩
  · rintro hranged rfl hstop hskipped hstart
    rw [List.append_nil] at hranged hstart ⊢
    have hspans := hranged.cover (hstart hskipped) (hstop hskipped)
    exact ⟨_, _, rfl, hspans, (Whole.of_leaf hspans).fits⟩

/-- A brace tried as one form and then as something else. -/
theorem covers_tryBrace_else (form : BraceForm) {r otherwise : Reader Expr} (hgrows : ∀ s, Grows s (Ending.state (r L s)))
    (h : Makes L p r Expr.frame) (ho : Makes L p otherwise Expr.frame) :
    Makes L p (do
      if let some e ← tryBrace form r then
        return e
      otherwise) Expr.frame := by
  refine .bindTo (q := fun found c => found = none → p c) (.tryBrace hgrows h) (fun {s found t} hp hr hnone => ?_)
    fun _ found => ?_
  · subst hnone
    rwa [cursor_of_tryBrace hr]
  · cases found with
    | some e => exact .pure fun _ he => he
    | none => exact (ho.narrow fun c hc => hc rfl).restart

theorem covers_tryRecord_else (hL : L.Covers) {otherwise : Reader Expr} (h : Makes L p otherwise Expr.frame) :
    Makes L p (do
      if let some e ← tryRecord then
        return e
      otherwise) Expr.frame :=
  covers_tryBrace_else .record (fun s => hL.grows.record s trivial) hL.record h

theorem covers_tryBlock_else (hL : L.Covers) {otherwise : Reader Expr} (h : Makes L p otherwise Expr.frame) :
    Makes L p (do
      if let some e ← tryBlock then
        return e
      otherwise) Expr.frame :=
  covers_tryBrace_else .block (fun s => composed_blockExpr.grows inherited_true hL.grows s trivial) (covers_blockExpr hL) h

theorem covers_braceValue (hL : L.Covers) (h : ∀ c, p c → c.kind = .mark .lBrace) : Makes L p braceValue Expr.frame :=
  .look .cursor fun _ => .ite (covers_tryRecord_else hL (covers_tryBlock_else hL (covers_unresolvable h))) (covers_blockExpr hL)

theorem covers_armBody (hL : L.Covers) : Makes L p armBody Expr.frame := by
  refine .iteMark _ (covers_tryBlock_else hL ?_) (.failThen _)
  exact .look .cursor fun _ => .ite (covers_tryRecord_else hL (covers_unresolvable fun _ hc => hc.2)) (covers_blockExpr hL)

/-! ## Control flow -/

/-- A branch is read from these tokens. -/
structure BranchOf (range : List Token) (branch : Branch) : Prop where
  starts : Starts range branch.start
  ends : Ends range branch.body.span
  fits : Fits (.tokens range) [branch.test.frame, branch.body.frame]

/-- What follows a branch is read from these tokens, after the word `else`. -/
def ElseOf (range : List Token) : Option Expr → Prop
  | none => range = []
  | some e => ∃ front back, range = front ++ back ∧ Whole back e.frame

theorem whole_toExpr {range range' : List Token} {branch : Branch} {otherwise : Option Expr} (hranged : Ranged (range ++ range'))
    (h : BranchOf range branch) (ho : ElseOf range' otherwise) : Whole (range ++ range') (branch.toExpr otherwise).frame := by
  cases otherwise with
  | none =>
    obtain rfl : range' = [] := ho
    rw [List.append_nil] at hranged ⊢
    exact .of_cover hranged h.starts h.ends h.fits
  | some e =>
    obtain ⟨front, back, rfl, hwhole⟩ := ho
    exact .of_cover hranged (h.starts.append _) ((hwhole.spans_expr.ends.append _).append _)
      (h.fits.append (hwhole.fits.before front))

theorem covers_branch (hL : L.Covers) : Covers L p [] branch BranchOf :=
  .bind (.needWord _) fun _ _ => .bind (hL.expr _) fun _ _ => .bind hL.block fun _ _ => .pure fun _ hbody htest hstart =>
    ⟨(hstart.starts.append _).append _, hbody.spans_block.ends.append _, (htest.fits.before _).append hbody.fits⟩

/-- The branches are folded from the last one, which ends where all of them do. -/
theorem covers_elseBranchesUpTo (hL : L.Covers) (fuel : Nat) :
    Covers L p [] (elseBranchesUpTo fuel) fun range result =>
      ElseOf range (result.1.foldr (fun b otherwise => some (b.toExpr otherwise)) result.2) := by
  induction fuel generalizing p with
  | zero => exact .pure fun _ => rfl
  | succ fuel ih =>
    refine .takenThen (.takeWord _) (fun token => .look .kind fun _ => .ite ?_ ?_) (.pure fun _ => rfl)
    · refine .bind (covers_branch hL) fun r first => .bind ih fun r' result => .pure fun hranged hrest hfirst => ?_
      rw [List.append_assoc] at hranged ⊢
      exact ⟨_, _, rfl, whole_toExpr (hranged.sublist (List.sublist_append_right _ _)) hfirst hrest⟩
    · exact .bind (covers_blockExpr hL) fun _ _ => .pure fun _ hblock => ⟨_, _, rfl, hblock⟩

theorem covers_conditional (hL : L.Covers) : Makes L p conditional Expr.frame :=
  .bind (covers_branch hL) fun _ _ => .look .tokensLeft fun _ => .bind (covers_elseBranchesUpTo hL _) fun _ _ =>
    .pure fun hranged hothers hfirst => whole_toExpr hranged hfirst hothers

theorem covers_pattern (hL : L.Covers) : Makes L p pattern Pattern.frame := by
  have value : Makes L p (do
      let value ← expr .head
      unless ← Reader.atMark .arrow do
        Reader.failUnexpected (.mark .arrow)
      return value) Expr.frame :=
    .bind (hL.expr _) fun _ _ => .look (.atMark _) fun _ => .ite (.pure fun _ hvalue => hvalue) (.failThen _)
  have composed : Composed (fun _ => True) (do
      let value ← expr .head
      unless ← Reader.atMark .arrow do
        Reader.failUnexpected (.mark .arrow)
      return value) :=
    .bind (.expr _) fun _ => .bind (.atMark _) fun _ => .unlessBind (.failUnexpected _) fun _ => .pure _
  refine .bind (.speculate (fun s => composed.grows inherited_true hL.grows s trivial) value) fun _ found => ?_
  cases found with
  | some value => exact .pure fun _ hvalue => hvalue
  | none =>
    refine .bind hL.type fun _ _ => .pure ?_
    rintro - htype rfl
    exact htype

theorem covers_arm (hL : L.Covers) : Makes L p arm Arm.frame :=
  .bind (covers_pattern hL) fun _ _ => .bind (.needMark _) fun _ _ => .bind (covers_armBody hL) fun _ _ =>
    .pure fun hranged hbody _ hpattern => .pair hranged hpattern hbody hpattern.spans_pattern hbody.spans_expr

theorem covers_selection (hL : L.Covers) : Makes L p selection Expr.frame := by
  refine .bind (.needWord _) fun _ _ => .bind (hL.expr _) fun _ _ => .bind (.needMark _) fun _ _ =>
    .bind (.recovering composed_arm hL.grows (covers_arm hL) _ _) fun _ arms => .bind (.needMark _) fun _ _ =>
    .pure fun hranged hclosing harms _ hscrutinee hstart => ?_
  rw [← armFrames_eq_map] at harms
  exact .of_cover hranged ((((hstart.starts.append _).append _).append _).append _) (hclosing.ends.append _)
    ((((hscrutinee.fits.before _).after _).append harms).after _)

/-! ## Operands and chains -/

theorem covers_primary (hL : L.Covers) (position : Position) : Makes L p (primary position) Expr.frame := by
  refine .onKind fun kind => ?_
  split
  · exact covers_atom (fun _ hc => hc.2) rfl rfl
  · exact covers_atom (fun _ hc => hc.2) rfl rfl
  · exact covers_atom (fun _ hc => hc.2) rfl rfl
  · exact covers_atom (fun _ hc => hc.2) rfl rfl
  · exact covers_atom (fun _ hc => hc.2) rfl rfl
  · exact covers_stringLiteral hL fun _ hc => hc.2
  · exact covers_macroCall hL (fun _ hc => hc.2) _
  · exact covers_listLiteral hL
  · exact covers_parens hL
  · cases position with
    | statement => exact covers_blockExpr hL
    | value => exact covers_braceValue hL fun _ hc => hc.2
    | head => exact .failUnexpected _
  · exact .bind (covers_fnDecl hL) fun _ _ => .pure fun _ hdecl => ⟨_, _, rfl, hdecl.spans_fn, hdecl.fits⟩
  · exact .bind (covers_fnDecl hL) fun _ _ => .pure fun _ hdecl => ⟨_, _, rfl, hdecl.spans_fn, hdecl.fits⟩
  · exact covers_conditional hL
  · exact covers_selection hL
  · exact .look .here fun _ => .throw
  · exact .look .here fun _ => .throw
  · exact .failUnexpected _

/-- The base is behind. -/
theorem covers_accessesUpTo (hL : L.Covers) {front : List Token} (position : Position) (base : Expr) (fuel : Nat) :
    Covers L p front (accessesUpTo position base fuel) fun range e => Whole front base.frame → Whole range e.frame := by
  induction fuel generalizing front base p with
  | zero => exact .pure fun _ hbase => hbase
  | succ fuel ih =>
    refine .takenThen (.takeMark _) (fun token => .bind (covers_primary hL _) fun _ member => ?_) (.pure fun _ hbase => hbase)
    exact (ih _).imp fun _ _ hranged hnext hmember hbase =>
      hnext (.pair hranged hbase hmember hbase.spans_expr hmember.spans_expr)

theorem covers_onceAttempted {front : List Token} (e : Expr) {next : Unit → Reader Expr} {post : List Token → Expr → Prop}
    (h : Covers L p front (next ()) post) : Covers L p front (onceAttempted e next) post := by
  unfold onceAttempted
  split
  · exact .failAdvisedThen _ _
  · exact h

/-- The expression before the question mark is behind. -/
theorem covers_attemptOf {front : List Token} {e : Expr} (h : ∀ c, p c → c.kind = .mark .question) :
    Covers L p front (attemptOf e) fun range a => Whole front e.frame → Whole range a.frame := by
  refine covers_onceAttempted e (.ite (.bind (.advanceAt h rfl) fun _ token => .pure ?_) (.failAdvisedThen _ _))
  rintro hranged ⟨rfl, -⟩ he
  exact .of_cover hranged (he.spans_expr.starts.append _) ((spans_single token).ends.append _) (he.fits.after _)

/-- The expression that the forms follow is behind. -/
theorem covers_postfixUpTo (hL : L.Covers) {front : List Token} (position : Position) (e : Expr) (fuel : Nat) :
    Covers L p front (postfixUpTo position e fuel) fun range a => Whole front e.frame → Whole range a.frame := by
  induction fuel generalizing front e p with
  | zero => exact .pure fun _ he => he
  | succ fuel ih =>
    refine .onKind fun kind => ?_
    split
    · refine .bind (covers_args hL) fun _ result => (ih _).imp fun _ _ hranged hnext hargs he => hnext ?_
      exact .of_cover hranged (he.spans_expr.starts.append _) (hargs.2.append _) (he.fits.append hargs.1)
    · refine .bind (.advanceAt (fun _ hc => hc.2) rfl) fun _ _ => .bind (covers_primary hL _) fun _ first =>
        .look .tokensLeft fun _ => (covers_accessesUpTo hL _ _ _).extend fun _ member => ?_
      exact (ih _).imp fun _ _ hranged hnext hmember hfirst _ he =>
        hnext (.pair hranged he (hmember hfirst) he.spans_expr (hmember hfirst).spans_expr)
    · refine .bind (.advanceAt (fun _ hc => hc.2) rfl) fun _ _ => .bind (covers_primary hL _) fun _ member => ?_
      exact (ih _).imp fun _ _ hranged hnext hmember _ he => hnext (.pair hranged he hmember he.spans_expr hmember.spans_expr)
    · change Covers L _ ([] ++ front) _ _
      refine (covers_attemptOf fun _ hc => hc.2).extend fun _ inner => ?_
      exact (ih _).imp fun _ _ _ hnext hinner he => hnext (hinner he)
    · exact .pure fun _ he => he

theorem covers_postfixExpr (hL : L.Covers) (position : Position) : Makes L p (postfixExpr position) Expr.frame :=
  .bind (covers_primary hL _) fun _ _ => .look .tokensLeft fun _ => covers_postfixUpTo hL _ _ _

theorem covers_unaryExpr (hL : L.Covers) (position : Position) : Makes L p (unaryExpr position) Expr.frame := by
  refine .onKind fun kind => ?_
  split
  · rename_i op hop
    have hmid : kind.isDone = false := by
      cases kind with
      | done => cases hop
      | _ => rfl
    refine .bind (.advanceAt (fun _ hc => hc.2) hmid) fun _ token => .bind (hL.operand _) fun _ inner => .pure ?_
    rintro hranged hinner ⟨rfl, -⟩
    exact .of_cover hranged ((spans_single token).starts.append _) (hinner.spans_expr.ends.append _) (hinner.fits.before _)
  · exact covers_postfixExpr hL _

/-- Operators with the operands after them are read from these tokens. -/
def LinksOf : List Token → List (BinaryOp × Expr) → Prop
  | range, [] => range = []
  | range, (_, e) :: rest => ∃ sign own others, range = sign ++ own ++ others ∧ Whole own e.frame ∧ LinksOf others rest

theorem covers_chainUpTo (hL : L.Covers) (level : Nat) (position : Position) (fuel : Nat) :
    Covers L p [] (chainUpTo level position fuel) LinksOf := by
  induction fuel generalizing p with
  | zero => exact .pure fun _ => rfl
  | succ fuel ih =>
    refine .onKind fun kind => ?_
    split
    · rename_i op hop
      have hmid : kind.isDone = false := by
        cases kind with
        | done => cases hop
        | _ => rfl
      exact .bind (.advanceAt (fun _ hc => hc.2) hmid) fun _ _ => .bind (covers_unaryExpr hL _) fun _ _ => .bind ih fun _ _ =>
        .pure fun _ hrest hnext _ => ⟨_, _, _, rfl, hnext, hrest⟩
    · exact .pure fun _ => rfl

/-- The operands that wait are read from these tokens, the last one first, each with its operator
after it. -/
def WaitsOf : List Token → List (Expr × BinaryOp) → Prop
  | range, [] => range = []
  | range, (left, _) :: waiting => ∃ others own sign, range = others ++ own ++ sign ∧ WaitsOf others waiting ∧ Whole own left.frame

/-- Joining an operand to those that wait for it takes their tokens. -/
theorem waitsOf_settle (level : Nat) (waiting : List (Expr × BinaryOp)) (right : Expr) {range range' : List Token}
    (hranged : Ranged (range ++ range')) (h : WaitsOf range waiting) (hright : Whole range' right.frame) :
    ∃ front back, range ++ range' = front ++ back ∧ WaitsOf front (settle level waiting right).1 ∧
      Whole back (settle level waiting right).2.frame := by
  induction waiting generalizing right range range' with
  | nil => exact ⟨range, range', rfl, h, hright⟩
  | cons wait waiting ih =>
    obtain ⟨left, op⟩ := wait
    unfold settle
    split
    · obtain ⟨others, own, sign, rfl, hothers, hleft⟩ := h
      have heq : others ++ own ++ sign ++ range' = others ++ (own ++ sign ++ range') := by
        simp only [List.append_assoc]
      rw [heq] at hranged ⊢
      exact ih _ hranged hothers (.pair (hranged.sublist (List.sublist_append_right _ _)) hleft hright hleft.spans_expr
        hright.spans_expr)
    · exact ⟨range, range', rfl, h, hright⟩

theorem whole_climb (waiting : List (Expr × BinaryOp)) (last : Expr) (rest : List (BinaryOp × Expr))
    {range own others : List Token} (hranged : Ranged (range ++ own ++ others)) (h : WaitsOf range waiting)
    (hlast : Whole own last.frame) (hrest : LinksOf others rest) :
    Whole (range ++ own ++ others) (climb waiting last rest).frame := by
  induction rest generalizing waiting last range own others with
  | nil =>
    obtain rfl : others = [] := hrest
    rw [List.append_nil] at hranged ⊢
    obtain ⟨front, back, heq, hfront, hback⟩ := waitsOf_settle 0 waiting last hranged h hlast
    rw [settle_zero] at hfront
    obtain rfl : front = [] := hfront
    rw [heq]
    exact hback
  | cons next rest ih =>
    obtain ⟨op, e⟩ := next
    obtain ⟨sign, own', others', rfl, hown, hothers⟩ := hrest
    obtain ⟨front, back, heq, hfront, hback⟩ :=
      waitsOf_settle op.level waiting last (hranged.sublist (List.sublist_append_left _ _)) h hlast
    have hall : range ++ own ++ (sign ++ own' ++ others') = front ++ back ++ sign ++ own' ++ others' := by
      rw [heq]
      simp only [List.append_assoc]
    rw [hall] at hranged ⊢
    exact ih _ _ hranged ⟨front, back, sign, rfl, hfront, hback⟩ hown hothers

theorem covers_chain (hL : L.Covers) (level : Nat) (position : Position) : Makes L p (chain level position) Expr.frame :=
  .bind (covers_unaryExpr hL _) fun _ first => .look .tokensLeft fun _ => .bind (covers_chainUpTo hL _ _ _) fun _ rest =>
    .pure fun hranged hrest hfirst => whole_climb [] first rest hranged rfl hfirst hrest

/-! ## Records -/

/-- What follows a field is not part of it. -/
theorem covers_fieldEnd {front : List Token} (field : RecordField) :
    Covers L p front (fieldEnd field) fun range f => ∃ rest, range = front ++ rest ∧ f = field := by
  refine .bind (.takeMark _) fun r _ => .ite (.pure fun _ _ => ⟨r, rfl, rfl⟩) (.look .kind fun _ => ?_)
  split
  · exact .pure fun _ _ => ⟨r, rfl, rfl⟩
  · exact .pure fun _ _ => ⟨r, rfl, rfl⟩
  · exact .failThen _

theorem covers_recordField (hL : L.Covers) :
    Covers L p [] recordField fun range field => ∃ own rest, range = own ++ rest ∧ Whole own field.frame := by
  refine .bind covers_name fun _ _ => .bind (.takeMark _) fun _ _ => .ite (.bind (hL.expr _) fun _ value => .known ?_) (.known ?_)
  · refine (covers_fieldEnd _).imp ?_
    rintro tokens f hranged ⟨rest, rfl, rfl⟩ hvalue - hname
    exact ⟨_, rest, rfl, .of_cover hranged ((hname.starts.append _).append _) (hvalue.spans_expr.ends.append _)
      (hvalue.fits.before _)⟩
  · refine (covers_fieldEnd _).imp ?_
    rintro tokens f - ⟨rest, rfl, rfl⟩ - hname
    rw [List.append_assoc]
    exact ⟨_, _, rfl, _, [], rfl, hname, .nil _⟩

theorem covers_recordFieldsUpTo (hL : L.Covers) (fuel : Nat) :
    Covers L p [] (recordFieldsUpTo fuel) fun range fields => Fits (.tokens range) (fields.map RecordField.frame) := by
  induction fuel generalizing p with
  | zero => exact .pure fun _ => .nil _
  | succ fuel ih =>
    refine .look (.atMark _) fun _ => .ite (.pure fun _ => .nil _) ?_
    refine .bind (covers_recordField hL) fun _ _ => .bind ih fun _ _ => .pure ?_
    rintro - hrest ⟨own, rest, rfl, hfield⟩
    exact (hfield.fits.after rest).append hrest

theorem covers_recordExpr (hL : L.Covers) : Makes L p recordExpr Expr.frame := by
  refine .bind (.needMark _) fun _ _ => .lookAt (f := Cursor.left) (fun _ => rfl) fun left => ?_
  refine .bindTo (q := fun _ c => c.rest = [] ∨ c.kind = .mark .rBrace) (covers_recordFieldsUpTo hL left)
    (fun hp hr => recordFieldsUpTo_ends hL.grows (Nat.le_of_eq hp.2) hr) fun _ fields => ?_
  have mid (c : Cursor) (hc : c.rest = [] ∨ c.kind = .mark .rBrace) (hb : Behind [] c) : c.atEnd = false := by
    rw [Cursor.atEnd, hc.resolve_left hb.rest_ne_nil]
    rfl
  refine .bind (.advanceMid mid) fun _ token => .pure ?_
  rintro hranged rfl hfields hopening
  rw [← recordFieldFrames_eq_map] at hfields
  exact .of_cover hranged ((hopening.starts.append _).append _) ((spans_single token).ends.append _)
    ((hfields.before _).after _)

/-! ## Statements and blocks -/

def Binding.frames (binding : Binding) : List Frame :=
  .leaf binding.nameSpan :: (optionalTypeFrames binding.type ++ [binding.value.frame])

theorem covers_binding (hL : L.Covers) :
    Covers L p [] binding fun range binding => range ≠ [] ∧ Fits (.tokens range) binding.frames := by
  have valued {pre : List Token} (text : String) (span : Span) (declared : Option TypeExpr) :
      Covers L (fun _ => True) pre (do return ⟨text, span, declared, ← expr .value⟩) fun range (binding : Binding) =>
        Fits (.tokens pre) (.leaf span :: optionalTypeFrames declared) → range ≠ [] ∧ Fits (.tokens range) binding.frames :=
    .bind (hL.expr _) fun _ _ => .pure fun _ hvalue hnamed =>
      ⟨List.append_ne_nil_of_right_ne_nil _ hvalue.ne_nil, hnamed.append hvalue.fits⟩
  refine .bind covers_name fun _ _ => .bind (.takeMark _) fun _ _ => .ite ?_ (.bind (.needMark _) fun _ _ => .known ?_)
  · refine .bind hL.type fun _ _ => .bind (.takeMark _) fun _ _ => .ite (.known ?_) (.failThen _)
    exact (valued _ _ _).imp fun _ _ _ hvalued _ htype _ hname =>
      hvalued ((((Whole.of_leaf hname).fits.after _).append htype.fits).after _)
  · exact (valued _ _ _).imp fun _ _ _ hvalued _ _ hname => hvalued (((Whole.of_leaf hname).fits.after _).after _)

theorem covers_assignment (hL : L.Covers) :
    Covers L p [] assignment fun range binding =>
      range ≠ [] ∧ Fits (.tokens range) [.leaf binding.nameSpan, binding.value.frame] :=
  .bind covers_name fun _ _ => .bind (.needMark _) fun _ _ => .bind (hL.expr _) fun _ _ => .pure fun _ hvalue _ hname =>
    ⟨List.append_ne_nil_of_right_ne_nil _ hvalue.ne_nil, ((Whole.of_leaf hname).fits.after _).append hvalue.fits⟩

theorem covers_loop (hL : L.Covers) :
    Covers L p [] loop fun range kind => range ≠ [] ∧ Fits (.tokens range) kind.frames := by
  unfold loop
  refine .bind (.needWord _) fun _ _ => .look (.atMark _) fun _ => .ite (.bind hL.block fun _ _ => .pure fun _ hbody _ =>
    ⟨List.append_ne_nil_of_right_ne_nil _ hbody.ne_nil, hbody.fits.before _⟩) ?_
  have ranged {q : Cursor → Prop} {pre : List Token} (element : Option String) : Covers L q pre (do
      let first ← expr .head
      let range ← if ← Reader.takeMark .dotDot then .between first <$> expr .head else pure (.over first)
      return StatementKind.loop element range (← block)) fun range kind => range ≠ [] ∧ Fits (.tokens range) kind.frames := by
    refine .bind (hL.expr _) fun _ first => .bind (.takeMark _) fun _ _ => .ite ?_ (.known ?_)
    · refine .bind (m := fun range r => ∃ last : Expr, r = .between first last ∧ Whole range last.frame)
        (.map _ (hL.expr _) fun _ last hlast => ⟨last, rfl, hlast⟩) fun _ _ => .bind hL.block fun _ _ => .pure ?_
      rintro - hbody ⟨last, rfl, hlast⟩ - hfirst
      exact ⟨List.append_ne_nil_of_right_ne_nil _ hbody.ne_nil,
        ((((hfirst.fits.before _).after _).append hlast.fits).append hbody.fits)⟩
    · exact .bind hL.block fun _ _ => .pure fun _ hbody _ hfirst =>
        ⟨List.append_ne_nil_of_right_ne_nil _ hbody.ne_nil, ((hfirst.fits.before _).after _).append hbody.fits⟩
  refine .onKind fun kind => .onPeek 1 fun second => ?_
  split
  · exact .bind (.skip 2) fun _ _ => .known ((ranged _).imp fun _ _ _ h _ _ => h)
  · exact .known ((ranged none).imp fun _ _ _ h _ => h)

theorem covers_leave (hL : L.Covers) (h : ∀ c, p c → c.kind = .word .returnWord) :
    Covers L p [] leave fun range kind => range ≠ [] ∧ Fits (.tokens range) kind.frames := by
  refine .bind (.advanceAt h rfl) fun _ _ => .look .cursor fun _ => .ite ?_ (.pure ?_)
  · exact .bind (hL.expr _) fun _ _ => .pure fun _ hvalue _ =>
      ⟨List.append_ne_nil_of_right_ne_nil _ hvalue.ne_nil, hvalue.fits.before _⟩
  · rintro - ⟨rfl, -⟩
    exact ⟨List.cons_ne_nil _ _, .nil _⟩

theorem covers_statementKind (hL : L.Covers) :
    Covers L p [] statementKind fun range kind => range ≠ [] ∧ Fits (.tokens range) kind.frames := by
  have alone {kind : Kind} {content : StatementKind} (hk : kind.isDone = false) (hcontent : content.frames = []) :
      Covers L (fun c => p c ∧ c.kind = kind) [] (do
        let _ ← advance
        return content) fun range content => range ≠ [] ∧ Fits (.tokens range) content.frames := by
    refine .bind (.advanceAt (fun _ hc => hc.2) hk) fun _ _ => .pure ?_
    rintro - ⟨rfl, -⟩
    exact ⟨List.cons_ne_nil _ _, hcontent ▸ .nil _⟩
  refine .onKind fun kind => ?_
  split
  · exact covers_leave hL fun _ hc => hc.2
  · exact alone rfl rfl
  · exact alone rfl rfl
  · exact covers_loop hL
  · exact .bind (covers_fnDecl hL) fun _ _ => .pure fun _ h => ⟨h.ne_nil, h.fits⟩
  · exact .bind (covers_fnDecl hL) fun _ _ => .pure fun _ h => ⟨h.ne_nil, h.fits⟩
  · exact .bind hL.block fun _ _ => .pure fun _ h => ⟨h.ne_nil, h.fits⟩
  · exact .look .here fun _ => .throw
  · exact .look .here fun _ => .throw
  · exact .failAdvised _ _
  · exact .failAdvised _ _
  · exact .failAdvised _ _
  · exact .failAdvised _ _
  · exact .failAdvised _ _
  · refine .look .cursor fun _ => .ite (.bind (covers_binding hL) fun _ _ => .pure fun _ h => h) ?_
    exact .ite (.bind (covers_assignment hL) fun _ _ => .pure fun _ h => h)
      (.bind (hL.expr _) fun _ _ => .pure fun _ h => ⟨h.ne_nil, h.fits⟩)
  · exact .look (.peek 1) fun _ => .ite (.failAdvised _ _)
      (.bind (hL.expr _) fun _ _ => .pure fun _ h => ⟨h.ne_nil, h.fits⟩)
  · exact .bind (hL.expr _) fun _ _ => .pure fun _ h => ⟨h.ne_nil, h.fits⟩

theorem covers_statement (hL : L.Covers) : Makes L p statement Statement.frame :=
  .startHere fun _ => .bind (covers_statementKind hL) fun _ _ => .spanFrom _ fun _ =>
    .pure fun hranged hstop hkind hstart => .of_cover hranged (hstart hkind.1) (hstop hkind.1) hkind.2

/-- At the end of the tokens the missing brace shows. -/
theorem covers_blockBody (hL : L.Covers) : Makes L p blockBody Block.frame := by
  refine .bind (.needMark _) fun _ _ => .bind (.recovering composed_statement hL.grows (covers_statement hL) _ _)
    fun _ statements => .iteMark _ ?_ ?_
  · refine .bind (.advanceAt (fun _ hc => hc.2) rfl) fun _ token => .pure ?_
    rintro hranged ⟨rfl, -⟩ hstatements hopening
    rw [← statementFrames_eq_map] at hstatements
    exact .of_cover hranged ((hopening.starts.append _).append _) ((spans_single token).ends.append _)
      ((hstatements.before _).after _)
  · refine .never fun s b t hr ht => ?_
    simp only [bind_apply, here, Reader.kind, Reader.atEnd, cursor_apply, pure_apply, halted_apply,
      Ending.andThen_ok] at hr
    split at hr
    · rename_i hends
      obtain ⟨hend, hgoes⟩ : s.cursor.atEnd = true ∧ s.halted = false := by simpa using hends
      have hopen : (Fault.ofCause s.cursor.span (.missing (.mark .rBrace) s.cursor.kind none)).isOpenBrace = true := by
        rw [Cursor.atEnd] at hend
        cases hkind : s.cursor.kind with
        | done => rfl
        | _ => simp [hkind, Kind.isDone] at hend
      rw [bind_apply, record_apply] at hr
      cases hr
      exact not_bracesClosed_withFault _ hopen hgoes ht
    · cases hr

/-! ## Items -/

theorem covers_pathRestUpTo (fuel : Nat) : Covers L p [] (pathRestUpTo fuel) fun _ _ => True := by
  induction fuel generalizing p with
  | zero => exact .pure fun _ => trivial
  | succ fuel ih =>
    exact .bind (.takeMark _) fun _ _ => .ite
      (.bind covers_anyName fun _ _ => .bind ih fun _ _ => .pure fun _ _ _ _ => trivial) (.pure fun _ _ => trivial)

theorem covers_exposed : Makes L p exposed Exposed.frame := by
  have named {kind : Kind} (hk : kind.isDone = false) (text : String) (isMacro : Bool) :
      Makes L (fun c => p c ∧ c.kind = kind) (do return ⟨text, isMacro, (← advance).span⟩) Exposed.frame := by
    refine .bind (.advanceAt (fun _ hc => hc.2) hk) fun _ token => .pure ?_
    rintro - ⟨rfl, -⟩
    exact .of_leaf (spans_single token)
  refine .onKind fun kind => ?_
  split
  · exact named rfl _ _
  · exact named rfl _ _
  · exact named rfl _ _
  · exact .failUnexpected _

theorem covers_importDecl :
    Covers L p [] importDecl fun range decl => range ≠ [] ∧ Fits (.tokens range) (decl.exposed.map Exposed.frame) := by
  refine .bind (.takeWord _) fun _ _ => .bind (.needWord _) fun _ _ => .bind (.takeMark _) fun _ _ =>
    .bind covers_anyName fun _ _ => .look .tokensLeft fun _ => .bind (covers_pathRestUpTo _) fun _ _ =>
    .bind (.takeWord _) fun _ _ => .iteBind (m := fun _ _ => True) (.map _ covers_anyName fun _ _ _ => trivial)
      (.pure fun _ => trivial) fun _ _ => .bind (.takeMark _) fun _ _ => ?_
  have filled {tokens a b : List Token} (h : tokens ≠ []) : a ++ tokens ++ b ≠ [] :=
    List.append_ne_nil_of_left_ne_nil (List.append_ne_nil_of_right_ne_nil _ h) _
  refine .ite (.bind (.separated _ covers_exposed) fun _ _ => .bind (.needMark _) fun _ _ => .known (.pure ?_)) (.known (.pure ?_))
  · intro _ hclosing hnames _ _ _ _ _ _ _ _
    exact ⟨List.append_ne_nil_of_right_ne_nil _ hclosing.ne_nil, (hnames.before _).after _⟩
  · intro _ _ _ _ _ hname _ _ _
    refine ⟨?_, .nil _⟩
    simp [hname.ne_nil]

def Member.frame : Member → Frame
  | .field f => f.frame
  | .constructor c => c.frame

theorem covers_member (hL : L.Covers) : Makes L p member Member.frame := by
  refine .startCursor fun c => ?_
  have field {text : String} {kind : Kind} (hkind : c.kind = kind ∧ c.peek 1 = .mark .colon) (hdone : kind.isDone = false) :
      Covers L (fun c' => p c' ∧ c' = c) [] (do
        skip 2
        let declared ← type
        return .field ⟨text, declared, c.span.cover declared.span⟩) fun tokens (m : Member) =>
        (tokens ≠ [] → Starts tokens c.span) → Whole tokens m.frame :=
    .bind (.skip 2) fun _ _ => .bind hL.type fun _ _ => .pure fun hranged htype _ hstart =>
      .of_cover hranged (hstart (List.append_ne_nil_of_right_ne_nil _ htype.ne_nil)) (htype.spans_type.ends.append _)
        (htype.fits.before _)
  dsimp only
  split
  · rename_i hk hp
    exact field ⟨hk, hp⟩ rfl
  · rename_i hk hp
    exact field ⟨hk, hp⟩ rfl
  · rename_i text hk _
    refine .bind (.advanceAt (fun c' hc => hc.2 ▸ hk) rfl) fun _ token => .look (.atMark _) fun _ =>
      .iteBind (covers_params hL covers_name) (.pure fun _ => .nil _) fun _ items => .spanFrom _ fun _ => .pure ?_
    rintro hranged hstop hitems ⟨rfl, -⟩ hstart
    exact .of_cover hranged (hstart (List.cons_ne_nil _ _)) (hstop (List.cons_ne_nil _ _)) (hitems.before _)
  · exact .failAdvised _ _

def optionalBodyFrames : Option TypeBody → List Frame
  | none => []
  | some body => body.frames

theorem covers_addMember {body : Option TypeBody} (h : OfMembers body) (member : Member) :
    Covers L p [] (addMember body member) fun range body' =>
      range = [] ∧ (body' = body ∨ optionalBodyFrames body' = optionalBodyFrames body ++ [member.frame]) := by
  match body, member with
  | some (.fields fs), .field f => exact .pure fun _ => ⟨rfl, .inr List.map_append⟩
  | some (.constructors cs), .constructor c => exact .pure fun _ => ⟨rfl, .inr List.map_append⟩
  | some (.fields _), .constructor _ => exact .bind (.record _) fun _ _ => .pure fun _ hrange => ⟨hrange, .inl rfl⟩
  | some (.constructors _), .field _ => exact .bind (.record _) fun _ _ => .pure fun _ hrange => ⟨hrange, .inl rfl⟩
  | none, .field f => exact .pure fun _ => ⟨rfl, .inr rfl⟩
  | none, .constructor c => exact .pure fun _ => ⟨rfl, .inr rfl⟩
  | some (.synonym type), _ => exact absurd rfl (h type)

/-- The members so far are behind. -/
theorem covers_membersUpTo (hL : L.Covers) {front : List Token} {body : Option TypeBody} (h : OfMembers body) (fuel : Nat) :
    Covers L p front (membersUpTo body fuel) fun range body' =>
      Fits (.tokens front) (optionalBodyFrames body) → Fits (.tokens range) (optionalBodyFrames body') := by
  induction fuel generalizing front body p with
  | zero => exact .pure fun _ hbody => hbody
  | succ fuel ih =>
    refine .look (.atMark _) fun _ => .ite (.pure fun _ hbody => hbody) (.bind (covers_member hL) fun _ member => ?_)
    refine .bindOf (covers_addMember h member) fun _ body' s t hr => .bind (.takeMark .comma) fun _ _ =>
      (ih (addMember_ofMembers hr)).imp ?_
    rintro tokens body'' - hnext - ⟨rfl, hsame | hframes⟩ hmember hbody
    · rw [hsame, List.append_nil] at hnext
      exact hnext ((hbody.after _).after _)
    · refine hnext ?_
      rw [hframes, List.append_nil]
      exact (hbody.append hmember.fits).after _

theorem covers_members (hL : L.Covers) : Covers L p [] members fun range body => Fits (.tokens range) body.frames := by
  refine .bind (.needMark _) fun _ _ => .look .tokensLeft fun _ => ?_
  refine .bind (covers_membersUpTo hL ofMembers_none _) fun _ body => .bind (.needMark _) fun _ _ => .pure fun _ _ hbody _ => ?_
  cases body with
  | none => exact .nil _
  | some body => exact ((hbody (.nil _)).before _).after _

theorem covers_declaredType (keyword : Bool) : Covers L p [] (declaredType keyword) fun range named => Spans range named.2 := by
  refine .ite covers_anyName (.onKind fun kind => ?_)
  split
  · refine .bind (.advanceAt (fun _ hc => hc.2) rfl) fun _ token => .pure ?_
    rintro - ⟨rfl, -⟩
    exact spans_single token
  · exact .failUnexpected _

theorem covers_typeDecl (hL : L.Covers) :
    Covers L p [] typeDecl fun range decl => range ≠ [] ∧ Fits (.tokens range) decl.frames := by
  refine .bind (.takeWord _) fun _ _ => .bind (covers_declaredType _) fun _ _ => .look (.atMark _) fun _ =>
    .iteBind (covers_params hL covers_anyName) (.pure fun _ => .nil _) fun _ _ => .bind (.needMark _) fun _ _ =>
    .look (.atMark _) fun _ => .iteBind (covers_members hL) (.map _ hL.type fun _ _ htype => htype.fits) fun _ _ =>
    .pure fun _ hbody hsign hitems hname _ => ⟨?_, ?_⟩
  · exact List.append_ne_nil_of_left_ne_nil (List.append_ne_nil_of_right_ne_nil _ hsign.ne_nil) _
  · exact ((((Whole.of_leaf hname).fits.before _).append hitems).after _).append hbody

theorem covers_implFn (hL : L.Covers) : Makes L p implFn FnDecl.frame := by
  refine .onKind fun kind => ?_
  split
  · exact covers_fnDecl hL
  · exact covers_fnDecl hL
  · exact .failUnexpected _

theorem covers_implDecl (hL : L.Covers) :
    Covers L p [] implDecl fun range decl => range ≠ [] ∧ Fits (.tokens range) decl.frames := by
  have bodied {pre : List Token} (traitType : Option TypeExpr) (selfType : TypeExpr) :
      Covers L (fun _ => True) pre (do
        let _ ← needMark .lBrace
        let fns ← recovering .fn (·.isMark .rBrace) implFn
        let _ ← needMark .rBrace
        return ⟨traitType, selfType, fns⟩) fun range (decl : Impl) =>
        Fits (.tokens pre) (optionalTypeFrames traitType ++ [selfType.frame]) →
          range ≠ [] ∧ Fits (.tokens range) decl.frames := by
    refine .bind (.needMark _) fun _ _ => .bind (.recovering composed_implFn hL.grows (covers_implFn hL) _ _) fun _ fns => .bind (.needMark _) fun _ _ =>
      .pure fun _ hclosing hfns _ htypes => ⟨List.append_ne_nil_of_right_ne_nil _ hclosing.ne_nil, ?_⟩
    show Fits _ (optionalTypeFrames traitType ++ ([selfType.frame] ++ fns.map FnDecl.frame))
    rw [← List.append_assoc]
    exact ((htypes.after _).append hfns).after _
  refine .bind (.needWord _) fun _ _ => .bind hL.type fun _ _ => .bind (.takeWord _) fun _ _ => .ite ?_ (.known ?_)
  · refine .bind hL.type fun _ _ => .known ((bodied _ _).imp fun _ _ _ hbodied hself _ htrait _ => hbodied ?_)
    exact ((htrait.fits.before _).after _).append hself.fits
  · exact (bodied _ _).imp fun _ _ _ hbodied _ hself _ => hbodied ((hself.fits.before _).after _)

theorem covers_itemKind (hL : L.Covers) :
    Covers L p [] itemKind fun range kind => range ≠ [] ∧ Fits (.tokens range) kind.frames := by
  refine .look .cursor fun c => ?_
  split
  · exact .bind covers_importDecl fun _ _ => .pure fun _ h => h
  · exact .bind covers_importDecl fun _ _ => .pure fun _ h => h
  · exact .bind (covers_fnDecl hL) fun _ _ => .pure fun _ h => ⟨h.ne_nil, h.fits⟩
  · exact .bind (covers_fnDecl hL) fun _ _ => .pure fun _ h => ⟨h.ne_nil, h.fits⟩
  · exact .bind (covers_typeDecl hL) fun _ _ => .pure fun _ h => h
  · exact .bind (covers_implDecl hL) fun _ _ => .pure fun _ h => h
  · exact .throw
  · exact .throw
  · refine .ite (.bind (covers_binding hL) fun _ _ => .pure fun _ h => h) ?_
    exact .ite (.bind (covers_assignment hL) fun _ _ => .pure fun _ h => h) .throw
  · exact .ite (.bind (covers_typeDecl hL) fun _ _ => .pure fun _ h => h) (.failUnexpected _)

theorem covers_item (hL : L.Covers) : Makes L p item Item.frame := by
  unfold item
  refine .startHere fun _ => .bind (.takeWord _) fun _ _ => .look .cursor fun _ => .ite (.throwThen _) ?_
  refine .bind (covers_itemKind hL) fun _ _ => .spanFrom _ fun _ => .pure fun hranged hstop hkind _ hstart => ?_
  exact .of_cover hranged (hstart (List.append_ne_nil_of_right_ne_nil _ hkind.1))
    (hstop (List.append_ne_nil_of_right_ne_nil _ hkind.1)) (hkind.2.before _)

end Grammar

/-! ## Programs -/

theorem tooDeep_makes {setting : Setting} {r : Reader α} {frame : α → Frame}
    (h : r (level setting 0) = tooDeep setting.options.maxDepth) : Makes (level setting 0) p r frame :=
  .never fun s a t hr => by
    rw [h] at hr
    cases hr

theorem level_covers (setting : Setting) (n : Nat) : (level setting n).Covers := by
  induction n with
  | zero => exact ⟨level_grows setting 0, fun _ => tooDeep_makes rfl, fun _ => tooDeep_makes rfl, tooDeep_makes rfl,
      tooDeep_makes rfl, tooDeep_makes rfl⟩
  | succ n ih =>
    have lift {β : Type} {q : Cursor → Prop} {r r' : Reader β} {frame : β → Frame}
        (h : Makes (level setting n) q r frame) (heq : r' (level setting (n + 1)) = r (level setting n)) :
        Makes (level setting (n + 1)) q r' frame := by
      refine ⟨?_, ?_⟩
      · rw [heq]
        exact h.closed
      · rw [heq]
        exact h.covers
    exact ⟨level_grows setting (n + 1), fun position => lift (covers_chain ih 1 position) rfl,
      fun position => lift (covers_chain ih operandLevel position) rfl, lift (covers_blockBody ih) rfl,
      lift (covers_typeExpr ih) rfl, lift (covers_recordExpr ih) rfl⟩

/-- If no brace is open at the end, the items are read from tokens before it, one after another. -/
theorem readItems_fits {setting : Setting} {tokens : List Token} (hlaid : ∃ lo hi, Laid lo tokens hi)
    (h : ∀ fault ∈ (readItems setting tokens).faults, fault.isOpenBrace = false) :
    ∃ body last, tokens = body ++ [last] ∧ Fits (.tokens body) ((readItems setting tokens).value.map Item.frame) := by
  rw [readItems_eq] at h ⊢
  obtain ⟨items, t, hread⟩ := itemsEnding_ok setting tokens
  rw [hread] at h ⊢
  have hlevel := level_covers setting setting.options.maxDepth
  have hbehind : Behind [] (Cursor.ofTokens tokens) := .ofTokens hlaid
  obtain ⟨body, hpasses, hfits⟩ := (Covers.recovering (p := fun _ => True) composed_item hlevel.grows
    (covers_item hlevel) _ _).covers trivial hbehind hread h
  obtain ⟨more, last, hrest, -⟩ := (hbehind.passes hpasses).split
  refine ⟨body ++ more, last, ?_, hfits.after more⟩
  rw [List.append_assoc, ← hrest]
  exact hpasses.rest

theorem lex_laid_within (source : String) : Laid 0 (lex source).tokens source.utf8ByteSize := by
  have hlaid := lexAt_laid (some faultLimit) fragmentLimit (byteWidth (shebangLine source.toList))
    (source.toList.drop (shebangLine source.toList).length)
  rw [← byteWidth_append, List.prefix_iff_eq_append.1 (shebangLine_le source.toList), ← utf8ByteSize_eq_byteWidth] at hlaid
  exact hlaid.mono (Nat.zero_le _) (Nat.le_refl _)

/-- The spans of a program in which every brace is closed are exact. -/
theorem Document.exact_of_bracesClosed (source : String) (options : Options)
    (h : ∀ fault ∈ (Document.read source options).faults, fault.isOpenBrace = false) :
    let document := Document.read source options
    Exact source.toList document.tokens document.program.span.start (document.program.items.map Item.frame)
      document.program.span.stop := by
  unfold Document.read at h ⊢
  dsimp only at h ⊢
  split
  · exact .nil (Nat.zero_le _)
  · rename_i hread
    rw [if_neg hread] at h
    dsimp only at h ⊢
    obtain ⟨body, last, htokens, hfits⟩ := readItems_fits (lex_laid source) h
    have hlaid := lex_laid_within source
    rw [htokens] at hlaid
    have hlies : (Site.tokens body).Lies (lex source).tokens 0 source.utf8ByteSize := by
      rw [htokens]
      exact hlaid.lies
    exact hfits.exact .whole hlies

/-- The spans of a program without faults are exact. -/
theorem Document.read_exact (source : String) (options : Options) (h : (Document.read source options).faults = []) :
    let document := Document.read source options
    Exact source.toList document.tokens document.program.span.start (document.program.items.map Item.frame)
      document.program.span.stop :=
  exact_of_bracesClosed source options (h ▸ List.forall_mem_nil _)

/-- The branches are folded from the last one, the operators are grouped, and the string has a fragment. -/
theorem Document.read_exact_branches :
    (Document.read "f := if a \x7b return 1 + 2 * g(b, to: 3)?.c \x7d else if d \x7b \"x$\x7b-y | 0\x7d\" \x7d else \x7b \x7d" .standard).faults = [] ∧
      Exact "f := if a \x7b return 1 + 2 * g(b, to: 3)?.c \x7d else if d \x7b \"x$\x7b-y | 0\x7d\" \x7d else \x7b \x7d".toList (Document.read "f := if a \x7b return 1 + 2 * g(b, to: 3)?.c \x7d else if d \x7b \"x$\x7b-y | 0\x7d\" \x7d else \x7b \x7d" .standard).tokens
        (Document.read "f := if a \x7b return 1 + 2 * g(b, to: 3)?.c \x7d else if d \x7b \"x$\x7b-y | 0\x7d\" \x7d else \x7b \x7d" .standard).program.span.start
        ((Document.read "f := if a \x7b return 1 + 2 * g(b, to: 3)?.c \x7d else if d \x7b \"x$\x7b-y | 0\x7d\" \x7d else \x7b \x7d" .standard).program.items.map Item.frame)
        (Document.read "f := if a \x7b return 1 + 2 * g(b, to: 3)?.c \x7d else if d \x7b \"x$\x7b-y | 0\x7d\" \x7d else \x7b \x7d" .standard).program.span.stop := by
  have hclean : (Document.read "f := if a \x7b return 1 + 2 * g(b, to: 3)?.c \x7d else if d \x7b \"x$\x7b-y | 0\x7d\" \x7d else \x7b \x7d" .standard).faults = [] := List.isEmpty_iff.1 (by decide +kernel)
  exact ⟨hclean, Document.read_exact _ _ hclean⟩

end JuiceSyntax
