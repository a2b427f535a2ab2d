/-
  Reading does not depend on layout. The productions of the grammar end alike on documents that
  differ in layout only (`alike_item`, ...), one lemma for each of them, and so does the reading of
  a whole program (`readItems_bare`): its tree and its faults differ in spans, and in the text of
  what is kept as written, and in nothing else.
-/
import Mathlib
import JuiceSyntax.Proofs.Grammar.Alike

namespace JuiceSyntax

open Reader

namespace Grammar

variable {doc doc' : List Token} {L L' : Level} (H : Level.Alike doc doc' L L')
include H

/-! ## Names -/

theorem alike_name : ReadsAlike doc doc' L L' Prod.fst name name := by
  refine .onKind H fun kind kind' h => ?_
  obtain hne | ⟨multiline, -⟩ := h
  · split
    · exact .bind (.advance H) fun _ _ _ => .pure rfl
    · exact .failUnexpected H _
  · exact .failUnexpected H _

theorem alike_anyName : ReadsAlike doc doc' L L' Prod.fst anyName anyName := by
  refine .onKind H fun kind kind' h => ?_
  obtain hne | ⟨multiline, -⟩ := h
  · split
    · exact .bind (.advance H) fun _ _ _ => .pure rfl
    · exact .bind (.advance H) fun _ _ _ => .pure rfl
    · exact .failUnexpected H _
  · exact .failUnexpected H _

theorem alike_argLabel : ReadsAlike doc doc' L L' id argLabel argLabel := by
  refine .onKind H fun kind kind' h => .bind (.peek H 1) fun next next' hnext => ?_
  obtain ⟨rfl, -⟩ | ⟨multiline, pieces, pieces', rfl, rfl⟩ := Kind.cases_of_bare hnext
  · obtain hne | ⟨multiline, -⟩ := h
    · split
      · exact .bind (.skip H 2) fun _ _ _ => .pure rfl
      · exact .pure rfl
    · exact .pure rfl
  · obtain hne | ⟨multiline, -⟩ := h
    · split
      · contradiction
      · split
        · contradiction
        · exact .pure rfl
    · exact .pure rfl

/-! ## Literals -/

theorem alike_fragment {tokens tokens' : List Token} (h : SamePlace doc doc' tokens tokens') (span span' : Span) :
    ReadsAlike doc doc' L L' Expr.bare (fragment tokens span) (fragment tokens' span') := by
  have hdone : tokens.all (·.kind.isDone) = tokens'.all (·.kind.isDone) := by
    rw [← all_isDone_bareTokens, h.bare H.bare, all_isDone_bareTokens]
  unfold fragment
  rw [hdone]
  refine .whenBind (.throw rfl) fun _ => .withTokens h <| .bind (.expr H _) fun inner inner' hinner => ?_
  exact .bindSame (.atEnd H) fun _ => .unlessBind (.failAdvised H _ _) fun _ => .pure hinner

theorem alike_segments {pieces pieces' : List Piece} (h : SamePieces doc doc' pieces pieces') :
    ReadsAlike doc doc' L L' bareSegments (segments pieces) (segments pieces') := by
  induction h with
  | nil => exact .pure rfl
  | text text span span' next ih =>
    exact .bind ih fun rest rest' hrest => .pure (by rw [bareSegments, bareSegments, hrest])
  | escape value raw raw' span span' next ih =>
    exact .bind ih fun rest rest' hrest => .pure (by rw [bareSegments, bareSegments, hrest])
  | fragment inner span span' next ih =>
    refine .bind (alike_fragment H inner span span') fun expr expr' hexpr => .bind ih fun rest rest' hrest => .pure ?_
    rw [bareSegments, bareSegments, hexpr, hrest]
  | indent span span' next ih => exact ih

omit H in
theorem indentSpans_bare {pieces pieces' : List Piece} (h : SamePieces doc doc' pieces pieces') :
    (indentSpans pieces).length = (indentSpans pieces').length := by
  induction h with
  | nil => rfl
  | text text span span' next ih => exact ih
  | escape value raw raw' span span' next ih => exact ih
  | fragment inner span span' next ih => exact ih
  | indent span span' next ih => exact congrArg (· + 1) ih

theorem alike_stringLiteral (multiline : Bool) {pieces pieces' : List Piece}
    (h : SamePieces doc doc' pieces pieces') :
    ReadsAlike doc doc' L L' Expr.bare (stringLiteral multiline pieces) (stringLiteral multiline pieces') := by
  have hmarkers : (indentSpans pieces).map (fun _ => Span.point 0) = (indentSpans pieces').map fun _ => .point 0 := by
    rw [List.map_const', List.map_const', indentSpans_bare h]
  refine .bind (.advance H) fun _ _ _ => .bind (alike_segments H h) fun segments segments' hsegments => .pure ?_
  cases multiline with
  | true => simp only [if_true, Expr.bare, ExprKind.bare, Layout.bare, hsegments, hmarkers]
  | false => simp only [Bool.false_eq_true, if_false, Expr.bare, ExprKind.bare, Layout.bare, hsegments]

theorem alike_listLiteral : ReadsAlike doc doc' L L' Expr.bare listLiteral listLiteral := by
  refine .bind (.needMark H _) fun _ _ _ => .bind (.separated H _ (.expr H _)) fun items items' hitems => ?_
  refine .bind (.needMark H _) fun _ _ _ => .pure ?_
  simp only [Expr.bare, ExprKind.bare, bareExprs_eq_map, hitems]

theorem alike_atom {kind kind' : ExprKind} (h : kind.bare = kind'.bare) :
    ReadsAlike doc doc' L L' Expr.bare (atom kind) (atom kind') :=
  .bind (.advance H) fun _ _ _ => .pure (by simp only [Expr.bare, h])

/-! ## Types -/

theorem alike_typeArg : ReadsAlike doc doc' L L' TypeArg.bare typeArg typeArg := by
  refine .bind .here fun _ _ _ => .bindSame (alike_argLabel H) fun label => ?_
  exact .bind (.type H) fun value value' hvalue => .pure (by simp only [TypeArg.bare, hvalue])

theorem alike_typeCall (callee : String) (span span' : Span) :
    ReadsAlike doc doc' L L' TypeExpr.bare (typeCall callee span) (typeCall callee span') := by
  refine .bind (.needMark H _) fun _ _ _ => .bind (.separated H _ (alike_typeArg H)) fun args args' hargs => ?_
  refine .bind (.needMark H _) fun _ _ _ => .pure ?_
  simp only [TypeExpr.bare, TypeKind.bare, bareTypeArgs_eq_map, hargs]

theorem alike_typeParens : ReadsAlike doc doc' L L' TypeExpr.bare typeParens typeParens := by
  refine .bind (.needMark H _) fun opening opening' _ => .bindSame (.atMark H _) fun _ => .whenBind (.failAdvised H _ _)
    fun _ => .bind (.type H) fun first first' hfirst => .bindSame (.takeMark H _) fun _ => .ite ?_ ?_
  · refine .bindSame (.atMark H _) fun _ => .ite ?_ ?_
    · refine .bind (.advance H) fun _ _ _ => .bindSame (.record H rfl) fun _ => .pure ?_
      simp only [TypeExpr.bare, TypeKind.bare, hfirst]
    · refine .bind (.separated H _ (.type H)) fun rest rest' hrest => .bind (.needMark H _) fun _ _ _ => .pure ?_
      simp only [TypeExpr.bare, TypeKind.bare, bareTypes_eq_map, List.map_cons, hfirst, hrest]
  · refine .bind (.needMark H _) fun _ _ _ => .pure ?_
    simp only [TypeExpr.bare, TypeKind.bare, hfirst]

theorem alike_typeOfName (text : String) (kind : TypeKind) :
    ReadsAlike doc doc' L L' TypeExpr.bare (typeOfName text kind) (typeOfName text kind) := by
  refine .bind (.advance H) fun _ _ _ => .bindSame (.atMark H _) fun _ => .ite (alike_typeCall H _ _ _) (.pure ?_)
  simp only [TypeExpr.bare]

omit H in
theorem alike_literalType {literal literal' : Reader Expr} (h : ReadsAlike doc doc' L L' Expr.bare literal literal') :
    ReadsAlike doc doc' L L' TypeExpr.bare (literalType literal) (literalType literal') :=
  .bind h fun value value' hvalue => .pure (by simp only [TypeExpr.bare, TypeKind.bare, hvalue])

theorem alike_typeAtom : ReadsAlike doc doc' L L' TypeExpr.bare typeAtom typeAtom := by
  refine .onKind H fun kind kind' h => ?_
  obtain hne | ⟨multiline, h⟩ := h
  · split
    · exact alike_typeOfName H _ _
    · exact alike_typeOfName H _ _
    · exact alike_literalType (alike_atom H rfl)
    · exact alike_literalType (alike_atom H rfl)
    · exact alike_literalType (alike_atom H rfl)
    · exact absurd rfl (hne _ _)
    · exact alike_literalType (alike_listLiteral H)
    · exact alike_typeParens H
    · exact .failUnexpected H _
  · exact alike_literalType (alike_stringLiteral H multiline h)

theorem alike_typeRestUpTo (fuel : Nat) {left left' : TypeExpr} (h : left.bare = left'.bare) :
    ReadsAlike doc doc' L L' TypeExpr.bare (typeRestUpTo left fuel) (typeRestUpTo left' fuel) := by
  induction fuel generalizing left left' with
  | zero => exact .pure h
  | succ fuel ih =>
    refine .bind (.kind H) fun kind kind' hkind => ?_
    have hop : TypeOp.ofKind? kind = TypeOp.ofKind? kind' := by
      rw [← TypeOp.ofKind?_bare, hkind, TypeOp.ofKind?_bare]
    rw [hop]
    cases TypeOp.ofKind? kind' with
    | none => exact .pure h
    | some op =>
      refine .bind (.advance H) fun _ _ _ => .bind (alike_typeAtom H) fun right right' hright => ih ?_
      simp only [TypeExpr.bare, TypeKind.bare, h, hright]

theorem alike_typeExpr : ReadsAlike doc doc' L L' TypeExpr.bare typeExpr typeExpr :=
  .bind (alike_typeAtom H) fun _ _ hfirst => .bindSame (.tokensLeft H) fun _ => alike_typeRestUpTo H _ hfirst

/-! ## Functions -/

theorem alike_param {named : Reader (String × Span)} (hnamed : ReadsAlike doc doc' L L' Prod.fst named named) :
    ReadsAlike doc doc' L L' Param.bare (param named) (param named) := by
  refine .bind hnamed fun p p' hp => ?_
  obtain ⟨text, span⟩ := p
  obtain ⟨text', span'⟩ := p'
  obtain rfl : text = text' := hp
  refine .bindSame (.takeMark H _) fun _ => .ite (.bind (.type H) fun declared declared' hdeclared => .pure ?_) ?_
  · simp only [Param.bare, bareType?, hdeclared]
  · exact .pure rfl

theorem alike_params {named : Reader (String × Span)} (hnamed : ReadsAlike doc doc' L L' Prod.fst named named) :
    ReadsAlike doc doc' L L' (List.map Param.bare) (params named) (params named) :=
  .bind (.needMark H _) fun _ _ _ => .bind (.separated H _ (alike_param H hnamed)) fun _ _ hitems =>
    .bind (.needMark H _) fun _ _ _ => .pure hitems

theorem alike_fnName : ReadsAlike doc doc' L L' (Option.map FnName.bare) fnName fnName := by
  refine .onKind H fun kind kind' h => ?_
  obtain hne | ⟨multiline, -⟩ := h
  · split
    · exact .bind (.advance H) fun _ _ _ => .pure rfl
    · exact .bind (.advance H) fun _ _ _ => .pure rfl
    · exact .pure rfl
  · exact .pure rfl

theorem alike_fnDecl : ReadsAlike doc doc' L L' FnDecl.bare fnDecl fnDecl := by
  refine .bind .here fun _ _ _ => .bindSame (.takeWord H _) fun isStatic => .bind (.needWord H _) fun _ _ _ =>
    .bind (alike_fnName H) fun title title' htitle => .bindSame (.atMark H _) fun _ =>
    .iteBind (alike_params H (alike_name H)) (.pure rfl) fun items items' hitems => .bindSame (.takeMark H _) fun _ =>
    .iteBind (v := Option.map TypeExpr.bare) (.map (.type H) fun _ _ => congrArg some) (.pure rfl)
    fun result result' hresult => .bind (.block H) fun body body' hbody => .bind (.spanFrom _ _) fun _ _ _ => .pure ?_
  simp only [FnDecl.bare, bareParams_eq_map, bareType?_eq_map, htitle, hitems, hresult, hbody]

/-! ## Arguments and macros -/

theorem alike_arg : ReadsAlike doc doc' L L' Arg.bare arg arg := by
  refine .bind .here fun _ _ _ => .bindSame (alike_argLabel H) fun label => ?_
  exact .bind (.expr H _) fun value value' hvalue => .pure (by simp only [Arg.bare, hvalue])

/-- The arguments in parentheses, without the span of the closing one. -/
theorem alike_args : ReadsAlike doc doc' L L' (fun p => p.1.map Arg.bare) args args :=
  .bind (.needMark H _) fun _ _ _ => .bind (.separated H _ (alike_arg H)) fun _ _ hitems =>
    .bind (.needMark H _) fun _ _ _ => .pure hitems

theorem alike_macroBody : ReadsAlike doc doc' L L' MacroBody.bare macroBody macroBody := by
  refine .bind (.needMark H _) fun opening opening' _ => .cursor fun c c' hc => ?_
  have hrest := hc.rest.bare H.bare
  have hn : innerLength 0 c.rest = innerLength 0 c'.rest := by
    rw [← innerLength_bareTokens, hrest, innerLength_bareTokens]
  dsimp only
  rw [hn]
  refine .bindSame (.skip H _) fun _ => .bindSame (.atEnd H) fun _ => .ite ?_ ?_
  · exact .bind .here fun _ _ _ => .throwBind rfl
  · refine .bind (.advance H) fun _ _ _ => .bindSame (.noteBody _ _) fun _ => .bind (.sourceText _ _) fun _ _ _ => .pure ?_
    simp only [MacroBody.bare, bareTokens_eq_map, List.map_take] at hrest ⊢
    rw [hrest]

theorem alike_macroCall (text : String) (position : Position) :
    ReadsAlike doc doc' L L' Expr.bare (macroCall text position) (macroCall text position) := by
  refine .bind (.advance H) fun _ _ _ => .bindSame (.atMark H _) fun parenthesized => ?_
  have rest {items items' : List Arg} (hitems : items.map Arg.bare = items'.map Arg.bare) (span span' stop stop' : Span) :
      ReadsAlike doc doc' L L' Expr.bare
        (do
          if (← atMark .lBrace) && position != .head then
            let body ← macroBody
            return ⟨.macroCall text span parenthesized items (some body), span.cover body.span⟩
          else if parenthesized then
            return ⟨.macroCall text span true items none, span.cover stop⟩
          else
            failUnexpected .macroArguments)
        (do
          if (← atMark .lBrace) && position != .head then
            let body ← macroBody
            return ⟨.macroCall text span' parenthesized items' (some body), span'.cover body.span⟩
          else if parenthesized then
            return ⟨.macroCall text span' true items' none, span'.cover stop'⟩
          else
            failUnexpected .macroArguments) := by
    refine .bindSame (.atMark H _) fun _ => .ite (.bind (alike_macroBody H) fun body body' hbody => .pure ?_)
      (.ite (.pure ?_) (.failUnexpected H _))
    · simp only [Expr.bare, ExprKind.bare, bareArgs_eq_map, hitems, Option.map_some, hbody]
    · simp only [Expr.bare, ExprKind.bare, bareArgs_eq_map, hitems, Option.map_none]
  exact .iteBind (alike_args H) (.pure rfl) fun p p' hp => rest hp _ _ p.2 p'.2

theorem alike_parens : ReadsAlike doc doc' L L' Expr.bare parens parens := by
  refine .bind (.needMark H _) fun opening opening' _ => .bindSame (.atMark H _) fun _ => .whenBind (.failAdvised H _ _)
    fun _ => .bind (.expr H _) fun first first' hfirst => .bindSame (.takeMark H _) fun _ => .ite ?_ ?_
  · refine .bindSame (.atMark H _) fun _ => .ite ?_ ?_
    · refine .bind (.advance H) fun _ _ _ => .bindSame (.record H rfl) fun _ => .pure ?_
      simp only [Expr.bare, ExprKind.bare, hfirst]
    · refine .bind (.separated H _ (.expr H _)) fun rest rest' hrest => .bind (.needMark H _) fun _ _ _ => .pure ?_
      simp only [Expr.bare, ExprKind.bare, bareExprs_eq_map, List.map_cons, hfirst, hrest]
  · refine .bind (.needMark H _) fun _ _ _ => .pure ?_
    simp only [Expr.bare, ExprKind.bare, hfirst]

/-! ## Braces -/

theorem alike_blockExpr : ReadsAlike doc doc' L L' Expr.bare blockExpr blockExpr :=
  .bind (.block H) fun body body' hbody => .pure (by simp only [Expr.bare, ExprKind.bare, hbody])

theorem looksLikeRecord_alike {c c' : Cursor} (h : c.Alike doc doc' c') : looksLikeRecord c = looksLikeRecord c' := by
  unfold looksLikeRecord
  obtain ⟨hfirst, -⟩ | ⟨m, ps, ps', hfirst, hfirst'⟩ := Kind.cases_of_bare (h.peek H.bare 1)
  · obtain ⟨hsecond, -⟩ | ⟨m, ps, ps', hsecond, hsecond'⟩ := Kind.cases_of_bare (h.peek H.bare 2)
    · rw [hfirst, hsecond]
    · rw [hfirst, hsecond, hsecond']
      cases c'.peek 1 with
      | mark m => cases m <;> rfl
      | _ => rfl
  · rw [hfirst, hfirst']

theorem alike_unresolvable : ReadsAlike doc doc' L L' Expr.bare unresolvable unresolvable := by
  refine .bind .here fun _ _ _ => .cursor fun c c' hc => ?_
  have hn : groupLength 0 c.rest = groupLength 0 c'.rest := by
    rw [← groupLength_bareTokens, hc.rest.bare H.bare, groupLength_bareTokens]
  rw [hn]
  exact .bindSame (.skip H _) fun _ => .bind (.spanFrom _ _) fun _ _ _ => .bindSame (.record H rfl) fun _ => .pure rfl

/-- A brace tried as one form and then as something else. -/
theorem alike_tryBrace_else (form : BraceForm) {r otherwise : Reader Expr}
    (tried : ReadsAlike doc doc' L L' Expr.bare r r) (ho : ReadsAlikeMid doc doc' L L' Expr.bare otherwise otherwise) :
    ReadsAlikeMid doc doc' L L' Expr.bare
      (do
        if let some e ← tryBrace form r then
          return e
        otherwise)
      (do
        if let some e ← tryBrace form r then
          return e
        otherwise) := by
  intro s s' hs hend
  have htry := ReadsAlike.tryBrace H form tried s s' hs hend
  rw [bind_apply, bind_apply]
  generalize hresult : tryBrace form r L s = ending at htry ⊢
  generalize tryBrace form r L' s' = ending' at htry ⊢
  cases htry with
  | error same states => exact .error same states
  | @ok found found' t t' same states =>
    cases found with
    | none =>
      rw [Option.map_none] at same
      rw [Option.map_eq_none_iff.1 same.symm]
      refine ho t t' states ?_
      rw [cursor_of_tryBrace hresult]
      exact hend
    | some e =>
      obtain ⟨e', rfl, he⟩ := Option.map_eq_some_iff.1 same.symm
      exact .ok he.symm states

theorem alike_braceValue : ReadsAlikeMid doc doc' L L' Expr.bare braceValue braceValue := by
  intro s s' hs hend
  unfold braceValue
  rw [cursor_bind_apply, cursor_bind_apply, looksLikeRecord_alike H hs.cursor]
  split
  · have htries := alike_tryBrace_else H .record (.recordLiteral H)
      (alike_tryBrace_else H .block (alike_blockExpr H) (alike_unresolvable H).mid)
    exact htries s s' hs hend
  · exact alike_blockExpr H s s' hs

theorem alike_armBody : ReadsAlike doc doc' L L' Expr.bare armBody armBody := by
  have hrecord : ReadsAlikeMid doc doc' L L' Expr.bare
      (do
        if looksLikeRecord (← cursor) then
          if let some e ← tryRecord then
            return e
          unresolvable
        else
          blockExpr)
      (do
        if looksLikeRecord (← cursor) then
          if let some e ← tryRecord then
            return e
          unresolvable
        else
          blockExpr) := by
    intro t t' ht hend
    rw [cursor_bind_apply, cursor_bind_apply, looksLikeRecord_alike H ht.cursor]
    split
    · exact alike_tryBrace_else H .record (.recordLiteral H) (alike_unresolvable H).mid t t' ht hend
    · exact alike_blockExpr H t t' ht
  intro s s' hs
  unfold armBody
  rw [bind_apply, bind_apply, atMark_apply, atMark_apply, ← hs.cursor.isMark H.bare]
  simp only [Ending.andThen_ok]
  cases hbrace : s.cursor.kind.isMark .lBrace with
  | false => exact ReadsAlike.failBind H s s' hs
  | true =>
    have hend : s.cursor.atEnd = false := by
      unfold Cursor.atEnd
      cases hk : s.cursor.kind with
      | mark m => rfl
      | _ => simp [hk, Kind.isMark] at hbrace
    exact alike_tryBrace_else H .block (alike_blockExpr H) hrecord s s' hs hend

/-! ## Control flow -/

def Branch.bare (branch : Branch) : Branch := ⟨.point 0, branch.test.bare, branch.body.bare⟩

omit H in
theorem Branch.toExpr_bare {branch branch' : Branch} {otherwise otherwise' : Option Expr}
    (h : branch.bare = branch'.bare) (ho : otherwise.map Expr.bare = otherwise'.map Expr.bare) :
    (branch.toExpr otherwise).bare = (branch'.toExpr otherwise').bare := by
  have htest : branch.test.bare = branch'.test.bare := congrArg Branch.test h
  have hbody : branch.body.bare = branch'.body.bare := congrArg Branch.body h
  simp only [Branch.toExpr, Expr.bare, ExprKind.bare, bareExpr?_eq_map, htest, hbody, ho]

theorem alike_branch : ReadsAlike doc doc' L L' Branch.bare branch branch := by
  refine .bind (.needWord H _) fun _ _ _ => .bind (.expr H _) fun test test' htest =>
    .bind (.block H) fun body body' hbody => .pure ?_
  simp only [Branch.bare, htest, hbody]

theorem alike_elseBranchesUpTo (fuel : Nat) :
    ReadsAlike doc doc' L L' (fun p => (p.1.map Branch.bare, p.2.map Expr.bare)) (elseBranchesUpTo fuel)
      (elseBranchesUpTo fuel) := by
  induction fuel with
  | zero => exact .pure rfl
  | succ fuel ih =>
    refine .bindSame (.takeWord H _) fun _ => .ite (.bind (.kind H) fun kind kind' hkind => ?_) (.pure rfl)
    rw [← Kind.isWord_bare, hkind, Kind.isWord_bare]
    refine .ite (.bind (alike_branch H) fun first first' hfirst => .bind ih fun p p' hp => .pure ?_)
      (.bind (alike_blockExpr H) fun e e' he => .pure ?_)
    · obtain ⟨hrest, hlast⟩ := Prod.mk.inj hp
      simp only [List.map_cons, hfirst, hrest, hlast]
    · simp only [List.map_nil, Option.map_some, he]

theorem alike_conditional : ReadsAlike doc doc' L L' Expr.bare conditional conditional := by
  have hchain {rest rest' : List Branch} {last last' : Option Expr} (hrest : rest.map Branch.bare = rest'.map Branch.bare)
      (hlast : last.map Expr.bare = last'.map Expr.bare) :
      (rest.foldr (fun b otherwise => some (b.toExpr otherwise)) last).map Expr.bare =
        (rest'.foldr (fun b otherwise => some (b.toExpr otherwise)) last').map Expr.bare := by
    induction rest generalizing rest' with
    | nil =>
      rw [List.map_eq_nil_iff.1 hrest.symm]
      exact hlast
    | cons b rest ih =>
      cases rest' with
      | nil => exact absurd hrest (by simp)
      | cons b' rest' =>
        rw [List.map_cons, List.map_cons, List.cons.injEq] at hrest
        exact congrArg some (Branch.toExpr_bare hrest.1 (ih hrest.2))
  refine .bind (alike_branch H) fun first first' hfirst => .bindSame (.tokensLeft H) fun _ =>
    .bind (alike_elseBranchesUpTo H _) fun p p' hp => .pure ?_
  obtain ⟨hrest, hlast⟩ := Prod.mk.inj hp
  exact Branch.toExpr_bare hfirst (hchain hrest hlast)

theorem alike_pattern : ReadsAlike doc doc' L L' Pattern.bare pattern pattern := by
  have hvalue : ReadsAlike doc doc' L L' Expr.bare
      (do
        let value ← expr .head
        unless ← atMark .arrow do
          failUnexpected (.mark .arrow)
        return value)
      (do
        let value ← expr .head
        unless ← atMark .arrow do
          failUnexpected (.mark .arrow)
        return value) :=
    .bind (.expr H _) fun _ _ hvalue => .bindSame (.atMark H _) fun _ => .unlessBind (.failUnexpected H _) fun _ =>
      .pure hvalue
  refine .bind (.speculate hvalue) fun found found' hfound => ?_
  cases found with
  | none =>
    rw [Option.map_none] at hfound
    rw [Option.map_eq_none_iff.1 hfound.symm]
    exact .bind (.type H) fun type type' htype => .pure (congrArg Pattern.type htype)
  | some value =>
    obtain ⟨value', rfl, he⟩ := Option.map_eq_some_iff.1 hfound.symm
    exact .pure (congrArg Pattern.value he.symm)

theorem alike_arm : ReadsAlike doc doc' L L' Arm.bare arm arm := by
  refine .bind (alike_pattern H) fun left left' hleft => .bind (.needMark H _) fun _ _ _ =>
    .bind (alike_armBody H) fun right right' hright => .pure ?_
  simp only [Arm.bare, hleft, hright]

theorem alike_selection : ReadsAlike doc doc' L L' Expr.bare selection selection := by
  refine .bind (.needWord H _) fun _ _ _ => .bind (.expr H _) fun scrutinee scrutinee' hscrutinee =>
    .bind (.needMark H _) fun _ _ _ =>
    .bind (.recovering H Resume.arm_blind (fun kind => kind.isMark_bare _) (alike_arm H)) fun arms arms' harms =>
    .bind (.needMark H _) fun _ _ _ => .pure ?_
  simp only [Expr.bare, ExprKind.bare, bareArms_eq_map, hscrutinee, harms]

/-! ## Operands and chains -/

theorem alike_primary (position : Position) :
    ReadsAlike doc doc' L L' Expr.bare (primary position) (primary position) := by
  have hfn : ReadsAlike doc doc' L L' Expr.bare (do let decl ← fnDecl; return ⟨.fn decl, decl.span⟩)
      (do let decl ← fnDecl; return ⟨.fn decl, decl.span⟩) :=
    .bind (alike_fnDecl H) fun decl decl' hdecl => .pure (by simp only [Expr.bare, ExprKind.bare, hdecl])
  have hreserved (word : Keyword) : ReadsAlike doc doc' L L' Expr.bare
      (do throw (.ofCause (← here) (.reserved word))) (do throw (.ofCause (← here) (.reserved word))) :=
    .bind .here fun _ _ _ => .throw rfl
  intro s s' hs
  have hkind := hs.cursor.sameKind H.bare
  unfold primary
  rw [bind_apply, bind_apply]
  have hk : Reader.kind L s = .ok s.cursor.kind s := rfl
  have hk' : Reader.kind L' s' = .ok s'.cursor.kind s' := rfl
  rw [hk, hk', Ending.andThen_ok, Ending.andThen_ok]
  generalize hsk : s.cursor.kind = kind at hkind ⊢
  generalize s'.cursor.kind = kind' at hkind ⊢
  obtain hne | ⟨multiline, h⟩ := hkind
  · split
    · exact alike_atom H rfl s s' hs
    · exact alike_atom H rfl s s' hs
    · exact alike_atom H rfl s s' hs
    · exact alike_atom H rfl s s' hs
    · exact alike_atom H rfl s s' hs
    · exact absurd rfl (hne _ _)
    · exact alike_macroCall H _ _ s s' hs
    · exact alike_listLiteral H s s' hs
    · exact alike_parens H s s' hs
    · cases position with
      | statement => exact alike_blockExpr H s s' hs
      | value =>
        refine alike_braceValue H s s' hs ?_
        rw [Cursor.atEnd, hsk]
        rfl
      | head => exact ReadsAlike.failUnexpected H _ s s' hs
    · exact hfn s s' hs
    · exact hfn s s' hs
    · exact alike_conditional H s s' hs
    · exact alike_selection H s s' hs
    · exact hreserved _ s s' hs
    · exact hreserved _ s s' hs
    · exact ReadsAlike.failUnexpected H _ s s' hs
  · exact alike_stringLiteral H multiline h s s' hs

omit H in
theorem typeAccess_bare {base base' member member' : Expr} (hbase : base.bare = base'.bare)
    (hmember : member.bare = member'.bare) : (typeAccess base member).bare = (typeAccess base' member').bare := by
  simp only [typeAccess, Expr.bare, ExprKind.bare, hbase, hmember]

theorem alike_accessesUpTo (position : Position) (fuel : Nat) {base base' : Expr} (h : base.bare = base'.bare) :
    ReadsAlike doc doc' L L' Expr.bare (accessesUpTo position base fuel) (accessesUpTo position base' fuel) := by
  induction fuel generalizing base base' with
  | zero => exact .pure h
  | succ fuel ih =>
    exact .bindSame (.takeMark H _) fun _ =>
      .ite (.bind (alike_primary H _) fun _ _ hmember => ih (typeAccess_bare h hmember)) (.pure h)

omit H in
theorem acceptsAttempt_bare (kind : ExprKind) : acceptsAttempt kind.bare = acceptsAttempt kind := by
  cases kind <;> simp only [ExprKind.bare, acceptsAttempt]

theorem alike_onceAttempted {e e' : Expr} (h : e.kind.bare = e'.kind.bare) {next next' : Unit → Reader Expr}
    (hnext : ReadsAlike doc doc' L L' Expr.bare (next ()) (next' ())) :
    ReadsAlike doc doc' L L' Expr.bare (onceAttempted e next) (onceAttempted e' next') := by
  unfold onceAttempted
  split
  · rename_i inner hk
    rw [hk, ExprKind.bare] at h
    obtain ⟨inner', hk'⟩ := ExprKind.attempt_of_bare h.symm
    rw [hk']
    exact .failBind H
  · split
    · rename_i hne _ inner' hk'
      rw [hk', ExprKind.bare] at h
      obtain ⟨inner, hk⟩ := ExprKind.attempt_of_bare h
      exact absurd hk (hne inner)
    · exact hnext

theorem alike_attemptOf {e e' : Expr} (h : e.bare = e'.bare) :
    ReadsAlike doc doc' L L' Expr.bare (attemptOf e) (attemptOf e') := by
  have hkind : e.kind.bare = e'.kind.bare := by
    rw [← Expr.kind_bare, h, Expr.kind_bare]
  have haccepts : acceptsAttempt e.kind = acceptsAttempt e'.kind := by
    rw [← acceptsAttempt_bare, hkind, acceptsAttempt_bare]
  unfold attemptOf
  rw [haccepts]
  refine alike_onceAttempted H hkind (.unlessBind (.failAdvised H _ _) fun _ => .bind (.advance H) fun _ _ _ => .pure ?_)
  simp only [Expr.bare, ExprKind.bare, h]

theorem alike_postfixUpTo (position : Position) (fuel : Nat) {e e' : Expr} (h : e.bare = e'.bare) :
    ReadsAlike doc doc' L L' Expr.bare (postfixUpTo position e fuel) (postfixUpTo position e' fuel) := by
  induction fuel generalizing e e' with
  | zero => exact .pure h
  | succ fuel ih =>
    have hcall : ReadsAlike doc doc' L L' Expr.bare
        (do let call ← args; postfixUpTo position ⟨.call e call.1, e.span.cover call.2⟩ fuel)
        (do let call ← args; postfixUpTo position ⟨.call e' call.1, e'.span.cover call.2⟩ fuel) :=
      .bind (alike_args H) fun p p' hp => ih (by simp only [Expr.bare, ExprKind.bare, bareArgs_eq_map, h, hp])
    refine .onKind H fun kind kind' hkind => ?_
    obtain hne | ⟨multiline, -⟩ := hkind
    · split
      · exact hcall
      · refine .bind (.advance H) fun _ _ _ => .bind (alike_primary H _) fun first first' hfirst =>
          .bindSame (.tokensLeft H) fun _ => .bind (alike_accessesUpTo H _ _ hfirst) fun member member' hmember => ih ?_
        simp only [Expr.bare, ExprKind.bare, h, hmember]
      · exact .bind (.advance H) fun _ _ _ => .bind (alike_primary H _) fun _ _ hmember => ih (typeAccess_bare h hmember)
      · exact .bind (alike_attemptOf H h) fun _ _ hinner => ih hinner
      · exact .pure h
    · exact .pure h

theorem alike_postfixExpr (position : Position) :
    ReadsAlike doc doc' L L' Expr.bare (postfixExpr position) (postfixExpr position) :=
  .bind (alike_primary H _) fun _ _ hfirst => .bindSame (.tokensLeft H) fun _ => alike_postfixUpTo H _ _ hfirst

theorem alike_unaryExpr (position : Position) :
    ReadsAlike doc doc' L L' Expr.bare (unaryExpr position) (unaryExpr position) := by
  refine .bind (.kind H) fun kind kind' hkind => ?_
  rw [← UnaryOp.ofKind?_bare, hkind, UnaryOp.ofKind?_bare]
  cases UnaryOp.ofKind? kind' with
  | none => exact alike_postfixExpr H _
  | some op =>
    refine .bind (.advance H) fun _ _ _ => .bind (.operand H _) fun inner inner' hinner => .pure ?_
    simp only [Expr.bare, ExprKind.bare, hinner]

theorem alike_chainUpTo (level : Nat) (position : Position) (fuel : Nat) :
    ReadsAlike doc doc' L L' (List.map (Prod.map id Expr.bare)) (chainUpTo level position fuel)
      (chainUpTo level position fuel) := by
  induction fuel with
  | zero => exact .pure rfl
  | succ fuel ih =>
    refine .bind (.kind H) fun kind kind' hkind => ?_
    rw [← BinaryOp.ofKind?_bare, hkind, BinaryOp.ofKind?_bare]
    cases (BinaryOp.ofKind? kind').filter fun op => level ≤ op.level with
    | none => exact .pure rfl
    | some op =>
      refine .bind (.advance H) fun _ _ _ => .bind (alike_unaryExpr H _) fun next next' hnext =>
        .bind ih fun rest rest' hrest => .pure ?_
      rw [List.map_cons, List.map_cons, hrest, Prod.map, Prod.map, hnext]

omit H in
theorem binaryExpr_bare (op : BinaryOp) (left right : Expr) :
    (binaryExpr op left right).bare = binaryExpr op left.bare right.bare := by
  cases left
  cases right
  rfl

omit H in
theorem settle_bare (level : Nat) (waiting : List (Expr × BinaryOp)) (right : Expr) :
    settle level (waiting.map (Prod.map Expr.bare id)) right.bare =
      ((settle level waiting right).1.map (Prod.map Expr.bare id), (settle level waiting right).2.bare) := by
  induction waiting generalizing right with
  | nil => rfl
  | cons first waiting ih =>
    obtain ⟨left, op⟩ := first
    rw [List.map_cons, Prod.map, settle, settle]
    dsimp only [id]
    split
    · rw [← binaryExpr_bare, ih]
    · rw [List.map_cons]
      rfl

omit H in
theorem climb_bare (waiting : List (Expr × BinaryOp)) (last : Expr) (rest : List (BinaryOp × Expr)) :
    (climb waiting last rest).bare =
      climb (waiting.map (Prod.map Expr.bare id)) last.bare (rest.map (Prod.map id Expr.bare)) := by
  induction rest generalizing waiting last with
  | nil => rw [List.map_nil, climb, climb, settle_bare]
  | cons first rest ih =>
    obtain ⟨op, next⟩ := first
    rw [List.map_cons, Prod.map, climb, climb]
    dsimp only [id]
    rw [ih, settle_bare]
    rfl

theorem alike_chain (level : Nat) (position : Position) :
    ReadsAlike doc doc' L L' Expr.bare (chain level position) (chain level position) := by
  refine .bind (alike_unaryExpr H _) fun first first' hfirst => .bindSame (.tokensLeft H) fun _ =>
    .bind (alike_chainUpTo H _ _ _) fun rest rest' hrest => .pure ?_
  rw [climb_bare, climb_bare, hfirst, hrest]

/-! ## Records -/

theorem alike_fieldEnd {field field' : RecordField} (h : field.bare = field'.bare) :
    ReadsAlike doc doc' L L' RecordField.bare (fieldEnd field) (fieldEnd field') := by
  refine .bindSame (.takeMark H _) fun _ => .ite (.pure h) (.onKind H fun kind kind' hkind => ?_)
  obtain hne | ⟨multiline, -⟩ := hkind
  · split
    · exact .pure h
    · exact .pure h
    · exact .failBind H
  · exact .failBind H

theorem alike_recordField : ReadsAlike doc doc' L L' RecordField.bare recordField recordField := by
  refine .bind (alike_name H) fun p p' hp => ?_
  obtain ⟨text, span⟩ := p
  obtain ⟨text', span'⟩ := p'
  obtain rfl : text = text' := hp
  refine .bindSame (.takeMark H _) fun _ =>
    .ite (.bind (.expr H _) fun value value' hvalue => alike_fieldEnd H ?_) (alike_fieldEnd H rfl)
  simp only [RecordField.bare, bareExpr?, hvalue]

theorem alike_recordFieldsUpTo (fuel : Nat) :
    ReadsAlike doc doc' L L' (List.map RecordField.bare) (recordFieldsUpTo fuel) (recordFieldsUpTo fuel) := by
  induction fuel with
  | zero => exact .pure rfl
  | succ fuel ih =>
    refine .bindSame (.atMark H _) fun _ => .ite (.pure rfl) (.bind (alike_recordField H) fun first first' hfirst =>
      .bind ih fun rest rest' hrest => .pure ?_)
    rw [List.map_cons, List.map_cons, hfirst, hrest]

theorem alike_recordExpr : ReadsAlike doc doc' L L' Expr.bare recordExpr recordExpr := by
  refine .bind (.needMark H _) fun _ _ _ => .bindSame (.tokensLeft H) fun _ =>
    .bind (alike_recordFieldsUpTo H _) fun fields fields' hfields => .bind (.advance H) fun _ _ _ => .pure ?_
  simp only [Expr.bare, ExprKind.bare, bareRecordFields_eq_map, hfields]

/-! ## Statements and blocks -/

def Binding.bare (b : Binding) : Binding := ⟨b.name, .point 0, bareType? b.type, b.value.bare⟩

omit H in
theorem Binding.parts_of_bare {b b' : Binding} (h : b.bare = b'.bare) :
    b.name = b'.name ∧ b.type.map TypeExpr.bare = b'.type.map TypeExpr.bare ∧ b.value.bare = b'.value.bare := by
  simpa [Binding.bare] using h

theorem startsDeclaration_alike {c c' : Cursor} (h : c.Alike doc doc' c') :
    startsDeclaration c = startsDeclaration c' := by
  unfold startsDeclaration
  obtain ⟨hfirst, -⟩ | ⟨m, ps, ps', hfirst, hfirst'⟩ := Kind.cases_of_bare (h.kind H.bare)
  · obtain ⟨hsecond, -⟩ | ⟨m, ps, ps', hsecond, hsecond'⟩ := Kind.cases_of_bare (h.peek H.bare 1)
    · rw [hfirst, hsecond]
    · rw [hfirst, hsecond, hsecond']
      cases c'.kind <;> rfl
  · rw [hfirst, hfirst']

theorem startsAssignment_alike {c c' : Cursor} (h : c.Alike doc doc' c') :
    startsAssignment c = startsAssignment c' := by
  unfold startsAssignment
  obtain ⟨hfirst, -⟩ | ⟨m, ps, ps', hfirst, hfirst'⟩ := Kind.cases_of_bare (h.kind H.bare)
  · obtain ⟨hsecond, -⟩ | ⟨m, ps, ps', hsecond, hsecond'⟩ := Kind.cases_of_bare (h.peek H.bare 1)
    · rw [hfirst, hsecond]
    · rw [hfirst, hsecond, hsecond']
      cases c'.kind <;> rfl
  · rw [hfirst, hfirst']

omit H in
theorem startsExpr_bare (kind : Kind) : startsExpr kind.bare = startsExpr kind := by
  cases kind <;> simp only [Kind.bare, startsExpr]

theorem alike_binding : ReadsAlike doc doc' L L' Binding.bare binding binding := by
  refine .bind (alike_name H) fun p p' hp => ?_
  obtain ⟨text, span⟩ := p
  obtain ⟨text', span'⟩ := p'
  obtain rfl : text = text' := hp
  have valued {declared declared' : Option TypeExpr} (h : declared.map TypeExpr.bare = declared'.map TypeExpr.bare) :
      ReadsAlike doc doc' L L' Binding.bare (do return ⟨text, span, declared, ← expr .value⟩)
        (do return ⟨text, span', declared', ← expr .value⟩) := by
    refine .bind (.expr H _) fun value value' hvalue => .pure ?_
    simp only [Binding.bare, bareType?_eq_map, h, hvalue]
  refine .bindSame (.takeMark H _) fun _ => .ite ?_ ?_
  · exact .bind (.type H) fun _ _ hdeclared => .bindSame (.takeMark H _) fun _ =>
      .unlessBind (.failUnexpected H _) fun _ => valued (congrArg some hdeclared)
  · exact .bind (.needMark H _) fun _ _ _ => valued rfl

theorem alike_assignment : ReadsAlike doc doc' L L' Binding.bare assignment assignment := by
  refine .bind (alike_name H) fun p p' hp => ?_
  obtain ⟨text, span⟩ := p
  obtain ⟨text', span'⟩ := p'
  obtain rfl : text = text' := hp
  refine .bind (.needMark H _) fun _ _ _ => .bind (.expr H _) fun value value' hvalue => .pure ?_
  simp only [Binding.bare, bareType?, hvalue]

theorem alike_loop : ReadsAlike doc doc' L L' StatementKind.bare loop loop := by
  have ranged (element : Option String) : ReadsAlike doc doc' L L' StatementKind.bare
      (do
        let first ← expr .head
        let range ← if ← takeMark .dotDot then .between first <$> expr .head else pure (.over first)
        return StatementKind.loop element range (← block))
      (do
        let first ← expr .head
        let range ← if ← takeMark .dotDot then .between first <$> expr .head else pure (.over first)
        return StatementKind.loop element range (← block)) := by
    refine .bind (.expr H _) fun first first' hfirst => .bindSame (.takeMark H _) fun _ =>
      .iteBind (v := LoopRange.bare) (.map (.expr H _) fun last last' hlast => ?_) (.pure ?_)
      fun range range' hrange => .bind (.block H) fun body body' hbody => .pure ?_
    · simp only [LoopRange.bare, hfirst, hlast]
    · simp only [LoopRange.bare, hfirst]
    · simp only [StatementKind.bare, hrange, hbody]
  unfold loop
  refine .bind (.needWord H _) fun _ _ _ => .bindSame (.atMark H _) fun _ =>
    .ite (.bind (.block H) fun body body' hbody => .pure ?_) ?_
  · simp only [StatementKind.bare, LoopRange.bare, hbody]
  · refine .bind (.kind H) fun kind kind' hkind => .bind (.peek H 1) fun next next' hnext => ?_
    obtain ⟨rfl, -⟩ | ⟨multiline, pieces, pieces', rfl, rfl⟩ := Kind.cases_of_bare hkind
    · obtain ⟨rfl, -⟩ | ⟨multiline, pieces, pieces', rfl, rfl⟩ := Kind.cases_of_bare hnext
      · split
        · exact .bindSame (.skip H 2) fun _ => ranged _
        · exact ranged _
      · cases kind <;> exact ranged _
    · exact ranged _

theorem alike_leave : ReadsAlike doc doc' L L' StatementKind.bare leave leave := by
  refine .bind (.advance H) fun _ _ _ => .cursor fun c c' hc => ?_
  rw [← startsExpr_bare, hc.kind H.bare, startsExpr_bare, startsDeclaration_alike H hc, startsAssignment_alike H hc]
  refine .ite (.bind (.expr H _) fun value value' hvalue => .pure ?_) (.pure rfl)
  simp only [StatementKind.bare, bareExpr?, hvalue]

theorem alike_statementKind : ReadsAlike doc doc' L L' StatementKind.bare statementKind statementKind := by
  have hfn : ReadsAlike doc doc' L L' StatementKind.bare (do return .fn (← fnDecl)) (do return .fn (← fnDecl)) :=
    .bind (alike_fnDecl H) fun decl decl' hdecl => .pure (congrArg StatementKind.fn hdecl)
  have hreserved (word : Keyword) : ReadsAlike doc doc' L L' StatementKind.bare
      (do throw (.ofCause (← here) (.reserved word))) (do throw (.ofCause (← here) (.reserved word))) :=
    .bind .here fun _ _ _ => .throw rfl
  have hexpr : ReadsAlike doc doc' L L' StatementKind.bare (do return .expr (← expr .statement))
      (do return .expr (← expr .statement)) :=
    .bind (.expr H _) fun e e' he => .pure (congrArg StatementKind.expr he)
  refine .onKind H fun kind kind' hkind => ?_
  obtain hne | ⟨multiline, -⟩ := hkind
  · split
    · exact alike_leave H
    · exact .bind (.advance H) fun _ _ _ => .pure rfl
    · exact .bind (.advance H) fun _ _ _ => .pure rfl
    · exact alike_loop H
    · exact hfn
    · exact hfn
    · exact .bind (.block H) fun block block' hblock => .pure (congrArg StatementKind.block hblock)
    · exact hreserved _
    · exact hreserved _
    · exact .failAdvised H _ _
    · exact .failAdvised H _ _
    · exact .failAdvised H _ _
    · exact .failAdvised H _ _
    · exact .failAdvised H _ _
    · refine .cursor fun c c' hc => ?_
      rw [startsDeclaration_alike H hc, startsAssignment_alike H hc]
      refine .ite (.bind (alike_binding H) fun b b' hb => .pure ?_)
        (.ite (.bind (alike_assignment H) fun b b' hb => .pure ?_) hexpr)
      · obtain ⟨hname, htype, hvalue⟩ := Binding.parts_of_bare hb
        simp only [StatementKind.bare, bareType?_eq_map, hname, htype, hvalue]
      · obtain ⟨hname, -, hvalue⟩ := Binding.parts_of_bare hb
        simp only [StatementKind.bare, hname, hvalue]
    · refine .bind (.peek H 1) fun next next' hnext => ?_
      rw [← Kind.isMark_bare, hnext, Kind.isMark_bare]
      exact .ite (.failAdvised H _ _) hexpr
    · exact hexpr
  · exact hexpr

theorem alike_statement : ReadsAlike doc doc' L L' Statement.bare statement statement := by
  refine .bind .here fun _ _ _ => .bind (alike_statementKind H) fun content content' hcontent =>
    .bind (.spanFrom _ _) fun _ _ _ => .pure ?_
  simp only [Statement.bare, hcontent]

theorem alike_blockBody : ReadsAlike doc doc' L L' Block.bare blockBody blockBody := by
  refine .bind (.needMark H _) fun _ _ _ =>
    .bind (.recovering H Resume.statement_blind (fun kind => kind.isMark_bare _) (alike_statement H))
    fun statements statements' hstatements => .bindSame (.atMark H _) fun _ => .ite ?_ ?_
  · refine .bind (.advance H) fun _ _ _ => .pure ?_
    simp only [Block.bare, bareStatements_eq_map, hstatements]
  · refine .bind .here fun _ _ _ => .bind (.kind H) fun kind kind' hkind => .bindSame (.atEnd H) fun _ =>
      .bindSame .halted fun _ => ?_
    have hfault (span span' : Span) : (Fault.ofCause span (.missing (.mark .rBrace) kind none)).bare =
        (Fault.ofCause span' (.missing (.mark .rBrace) kind' none)).bare := by
      simp only [Fault.bare, Fault.ofCause, Cause.bare, hkind]
    refine .ite (.bindSame (.record H (hfault _ _)) fun _ => .bind .here fun _ _ _ => .pure ?_) (.throw (hfault _ _))
    simp only [Block.bare, bareStatements_eq_map, hstatements]

/-! ## Items -/

theorem alike_pathRestUpTo (fuel : Nat) : ReadsAlike doc doc' L L' id (pathRestUpTo fuel) (pathRestUpTo fuel) := by
  induction fuel with
  | zero => exact .pure rfl
  | succ fuel ih =>
    refine .bindSame (.takeMark H _) fun _ => .ite (.bind (alike_anyName H) fun p p' hp => ?_) (.pure rfl)
    obtain ⟨text, span⟩ := p
    obtain ⟨text', span'⟩ := p'
    obtain rfl : text = text' := hp
    exact .bindSame ih fun _ => .pure rfl

theorem alike_exposed : ReadsAlike doc doc' L L' Exposed.bare exposed exposed := by
  refine .onKind H fun kind kind' hkind => ?_
  obtain hne | ⟨multiline, -⟩ := hkind
  · split
    · exact .bind (.advance H) fun _ _ _ => .pure rfl
    · exact .bind (.advance H) fun _ _ _ => .pure rfl
    · exact .bind (.advance H) fun _ _ _ => .pure rfl
    · exact .failUnexpected H _
  · exact .failUnexpected H _

/-- What follows `[foreign] import`. -/
theorem alike_importPath (foreign : Bool) : ReadsAlike doc doc' L L' Import.bare
    (do
      let relative ← takeMark .dot
      let (first, _) ← anyName
      let rest ← pathRestUpTo (← tokensLeft)
      let renamed ← if ← takeWord .asWord then (some ·.1) <$> anyName else pure none
      let names ←
        if ← takeMark .lParen then do
          let names ← separated .rParen exposed
          let _ ← needMark .rParen
          pure names
        else
          pure []
      return (⟨foreign, relative, first :: rest, renamed, names⟩ : Import))
    (do
      let relative ← takeMark .dot
      let (first, _) ← anyName
      let rest ← pathRestUpTo (← tokensLeft)
      let renamed ← if ← takeWord .asWord then (some ·.1) <$> anyName else pure none
      let names ←
        if ← takeMark .lParen then do
          let names ← separated .rParen exposed
          let _ ← needMark .rParen
          pure names
        else
          pure []
      return (⟨foreign, relative, first :: rest, renamed, names⟩ : Import)) := by
  refine .bindSame (.takeMark H _) fun relative => .bind (alike_anyName H) fun p p' hp => ?_
  obtain ⟨first, span⟩ := p
  obtain ⟨first', span'⟩ := p'
  obtain rfl : first = first' := hp
  refine .bindSame (.tokensLeft H) fun _ => .bindSame (alike_pathRestUpTo H _) fun rest =>
    .bindSame (.takeWord H _) fun _ => .iteBind (v := id) (.map (alike_anyName H) fun _ _ => congrArg some) (.pure rfl)
    fun renamed renamed' hrenamed => ?_
  obtain rfl : renamed = renamed' := hrenamed
  refine .bindSame (.takeMark H _) fun _ => .ite (.bind (.separated H _ (alike_exposed H)) fun names names' hnames =>
    .bind (.needMark H _) fun _ _ _ => .pure ?_) (.pure rfl)
  simp only [Import.bare, hnames]

theorem alike_importDecl : ReadsAlike doc doc' L L' Import.bare importDecl importDecl :=
  .bindSame (.takeWord H _) fun foreign => .bind (.needWord H _) fun _ _ _ => alike_importPath H foreign

def Member.bare : Member → Member
  | .field f => .field f.bare
  | .constructor c => .constructor c.bare

theorem alike_member : ReadsAlike doc doc' L L' Member.bare member member := by
  have hfield (text : String) (span span' : Span) : ReadsAlike doc doc' L L' Member.bare
      (do
        skip 2
        let declared ← type
        return .field ⟨text, declared, span.cover declared.span⟩)
      (do
        skip 2
        let declared ← type
        return .field ⟨text, declared, span'.cover declared.span⟩) := by
    refine .bindSame (.skip H 2) fun _ => .bind (.type H) fun declared declared' hdeclared => .pure ?_
    simp only [Member.bare, Field.bare, hdeclared]
  have hconstructor (text : String) (span span' : Span) : ReadsAlike doc doc' L L' Member.bare
      (do
        let _ ← advance
        let items ← if ← atMark .lParen then params name else pure []
        return .constructor ⟨text, items, ← spanFrom span⟩)
      (do
        let _ ← advance
        let items ← if ← atMark .lParen then params name else pure []
        return .constructor ⟨text, items, ← spanFrom span'⟩) := by
    refine .bind (.advance H) fun _ _ _ => .bindSame (.atMark H _) fun _ =>
      .iteBind (alike_params H (alike_name H)) (.pure rfl) fun items items' hitems =>
      .bind (.spanFrom _ _) fun _ _ _ => .pure ?_
    simp only [Member.bare, Constructor.bare, bareParams_eq_map, hitems]
  refine .cursor fun c c' hc => ?_
  have hkind := hc.kind H.bare
  have hnext := hc.peek H.bare 1
  dsimp only
  generalize c.kind = kind at hkind ⊢
  generalize c'.kind = kind' at hkind ⊢
  generalize c.peek 1 = next at hnext ⊢
  generalize c'.peek 1 = next' at hnext ⊢
  obtain ⟨rfl, -⟩ | ⟨multiline, pieces, pieces', rfl, rfl⟩ := Kind.cases_of_bare hkind
  · obtain ⟨rfl, -⟩ | ⟨multiline, pieces, pieces', rfl, rfl⟩ := Kind.cases_of_bare hnext
    · split
      · exact hfield _ _ _
      · exact hfield _ _ _
      · exact hconstructor _ _ _
      · exact .failAdvised H _ _
    · cases kind with
      | typeName text => exact hconstructor _ _ _
      | _ => exact .failAdvised H _ _
  · exact .failAdvised H _ _

theorem alike_addMember {body body' : Option TypeBody} {member member' : Member}
    (hbody : body.map TypeBody.bare = body'.map TypeBody.bare) (hmember : member.bare = member'.bare) :
    ReadsAlike doc doc' L L' (Option.map TypeBody.bare) (addMember body member) (addMember body' member') := by
  cases member with
  | field f =>
    cases member' with
    | constructor c' => simp [Member.bare] at hmember
    | field f' =>
      have hf : f.bare = f'.bare := by simpa [Member.bare] using hmember
      rcases body with _ | ⟨type⟩ | ⟨fields⟩ | ⟨constructors⟩ <;>
        rcases body' with _ | ⟨type'⟩ | ⟨fields'⟩ | ⟨constructors'⟩ <;> simp [TypeBody.bare] at hbody
      · exact .pure (by simp [TypeBody.bare, hf])
      · exact .pure (by simp [TypeBody.bare, hf])
      · exact .pure (by simp [TypeBody.bare, hf, hbody])
      · exact .bindSame (.record H rfl) fun _ => .pure (by simp [TypeBody.bare, hbody])
  | constructor c =>
    cases member' with
    | field f' => simp [Member.bare] at hmember
    | constructor c' =>
      have hc : c.bare = c'.bare := by simpa [Member.bare] using hmember
      rcases body with _ | ⟨type⟩ | ⟨fields⟩ | ⟨constructors⟩ <;>
        rcases body' with _ | ⟨type'⟩ | ⟨fields'⟩ | ⟨constructors'⟩ <;> simp [TypeBody.bare] at hbody
      · exact .pure (by simp [TypeBody.bare, hc])
      · exact .pure (by simp [TypeBody.bare, hc])
      · exact .bindSame (.record H rfl) fun _ => .pure (by simp [TypeBody.bare, hbody])
      · exact .pure (by simp [TypeBody.bare, hc, hbody])

theorem alike_membersUpTo (fuel : Nat) {body body' : Option TypeBody}
    (h : body.map TypeBody.bare = body'.map TypeBody.bare) :
    ReadsAlike doc doc' L L' (Option.map TypeBody.bare) (membersUpTo body fuel) (membersUpTo body' fuel) := by
  induction fuel generalizing body body' with
  | zero => exact .pure h
  | succ fuel ih =>
    exact .bindSame (.atMark H _) fun _ => .ite (.pure h) (.bind (alike_member H) fun _ _ hmember =>
      .bind (alike_addMember H h hmember) fun _ _ hbody => .bindSame (.takeMark H _) fun _ => ih hbody)

theorem alike_members : ReadsAlike doc doc' L L' TypeBody.bare members members := by
  refine .bind (.needMark H _) fun _ _ _ => .bindSame (.tokensLeft H) fun _ =>
    .bind (alike_membersUpTo H _ rfl) fun body body' hbody => .bind (.needMark H _) fun _ _ _ => .pure ?_
  cases body with
  | none =>
    rw [Option.map_none] at hbody
    rw [Option.map_eq_none_iff.1 hbody.symm]
  | some body =>
    obtain ⟨body', rfl, he⟩ := Option.map_eq_some_iff.1 hbody.symm
    exact he.symm

theorem alike_declaredType (keyword : Bool) :
    ReadsAlike doc doc' L L' Prod.fst (declaredType keyword) (declaredType keyword) := by
  refine .ite (alike_anyName H) (.onKind H fun kind kind' hkind => ?_)
  obtain hne | ⟨multiline, -⟩ := hkind
  · split
    · exact .bind (.advance H) fun _ _ _ => .pure rfl
    · exact .failUnexpected H _
  · exact .failUnexpected H _

theorem alike_typeDecl : ReadsAlike doc doc' L L' TypeDecl.bare typeDecl typeDecl := by
  refine .bindSame (.takeWord H _) fun keyword => .bind (alike_declaredType H keyword) fun p p' hp => ?_
  obtain ⟨text, span⟩ := p
  obtain ⟨text', span'⟩ := p'
  obtain rfl : text = text' := hp
  refine .bindSame (.atMark H _) fun _ => .iteBind (alike_params H (alike_anyName H)) (.pure rfl) fun items items' hitems =>
    .bind (.needMark H _) fun _ _ _ => .bindSame (.atMark H _) fun _ =>
    .iteBind (alike_members H) (.map (.type H) fun _ _ => congrArg TypeBody.synonym) fun body body' hbody => .pure ?_
  simp only [TypeDecl.bare, bareParams_eq_map, hitems, hbody]

theorem alike_implFn : ReadsAlike doc doc' L L' FnDecl.bare implFn implFn := by
  refine .onKind H fun kind kind' hkind => ?_
  obtain hne | ⟨multiline, -⟩ := hkind
  · split
    · exact alike_fnDecl H
    · exact alike_fnDecl H
    · exact .failUnexpected H _
  · exact .failUnexpected H _

theorem alike_implDecl : ReadsAlike doc doc' L L' Impl.bare implDecl implDecl := by
  have hbody (p p' : Option TypeExpr × TypeExpr) (hp : p.1.map TypeExpr.bare = p'.1.map TypeExpr.bare)
      (hp' : p.2.bare = p'.2.bare) : ReadsAlike doc doc' L L' Impl.bare
        (do
          let _ ← needMark .lBrace
          let fns ← recovering .fn (·.isMark .rBrace) implFn
          let _ ← needMark .rBrace
          return ⟨p.1, p.2, fns⟩)
        (do
          let _ ← needMark .lBrace
          let fns ← recovering .fn (·.isMark .rBrace) implFn
          let _ ← needMark .rBrace
          return ⟨p'.1, p'.2, fns⟩) := by
    refine .bind (.needMark H _) fun _ _ _ =>
      .bind (.recovering H Resume.fn_blind (fun kind => kind.isMark_bare _) (alike_implFn H)) fun fns fns' hfns =>
      .bind (.needMark H _) fun _ _ _ => .pure ?_
    simp only [Impl.bare, bareType?_eq_map, hp, hp', hfns]
  refine .bind (.needWord H _) fun _ _ _ => .bind (.type H) fun first first' hfirst =>
    .bindSame (.takeWord H _) fun _ => .ite (.bind (.type H) fun second second' hsecond => ?_) ?_
  · exact hbody (some first, second) (some first', second') (congrArg some hfirst) hsecond
  · exact hbody (none, first) (none, first') rfl hfirst

theorem startsTypeDecl_alike {c c' : Cursor} (h : c.Alike doc doc' c') : startsTypeDecl c = startsTypeDecl c' := by
  unfold startsTypeDecl
  obtain ⟨hfirst, -⟩ | ⟨m, ps, ps', hfirst, hfirst'⟩ := Kind.cases_of_bare (h.kind H.bare)
  · obtain ⟨hsecond, -⟩ | ⟨m, ps, ps', hsecond, hsecond'⟩ := Kind.cases_of_bare (h.peek H.bare 1)
    · rw [hfirst, hsecond]
    · rw [hfirst, hsecond, hsecond']
      cases c'.kind <;> rfl
  · rw [hfirst, hfirst']

theorem startsExportable_alike {c c' : Cursor} (h : c.Alike doc doc' c') :
    startsExportable c = startsExportable c' := by
  unfold startsExportable
  rw [startsTypeDecl_alike H h, startsDeclaration_alike H h]
  obtain ⟨hkind, -⟩ | ⟨m, ps, ps', hkind, hkind'⟩ := Kind.cases_of_bare (h.kind H.bare)
  · rw [hkind]
  · rw [hkind, hkind']

theorem alike_itemKind : ReadsAlike doc doc' L L' ItemKind.bare itemKind itemKind := by
  have hfn : ReadsAlike doc doc' L L' ItemKind.bare (do return .fn (← fnDecl)) (do return .fn (← fnDecl)) :=
    .bind (alike_fnDecl H) fun decl decl' hdecl => .pure (congrArg ItemKind.fn hdecl)
  have himport : ReadsAlike doc doc' L L' ItemKind.bare (do return .imports (← importDecl))
      (do return .imports (← importDecl)) :=
    .bind (alike_importDecl H) fun decl decl' hdecl => .pure (congrArg ItemKind.imports hdecl)
  have htype : ReadsAlike doc doc' L L' ItemKind.bare (do return .type (← typeDecl)) (do return .type (← typeDecl)) :=
    .bind (alike_typeDecl H) fun decl decl' hdecl => .pure (congrArg ItemKind.type hdecl)
  refine .cursor fun c c' hc => ?_
  have hkind := hc.sameKind H.bare
  have hsign : (Fault.ofCause (c.peekSpan 1) (.unexpected .declarationSign (c.peek 1) none)).bare =
      (Fault.ofCause (c'.peekSpan 1) (.unexpected .declarationSign (c'.peek 1) none)).bare := by
    simp only [Fault.bare, Fault.ofCause, Cause.bare, hc.peek H.bare 1]
  rw [startsDeclaration_alike H hc, startsAssignment_alike H hc, startsTypeDecl_alike H hc]
  generalize c.kind = kind at hkind ⊢
  generalize c'.kind = kind' at hkind ⊢
  obtain hne | ⟨multiline, -⟩ := hkind
  · split
    · exact himport
    · exact himport
    · exact hfn
    · exact hfn
    · exact htype
    · exact .bind (alike_implDecl H) fun decl decl' hdecl => .pure (congrArg ItemKind.impl hdecl)
    · exact .throw rfl
    · exact .throw rfl
    · refine .ite (.bind (alike_binding H) fun b b' hb => .pure ?_)
        (.ite (.bind (alike_assignment H) fun b b' hb => .pure ?_) (.throw hsign))
      · obtain ⟨hname, htype, hvalue⟩ := Binding.parts_of_bare hb
        simp only [ItemKind.bare, bareType?_eq_map, hname, htype, hvalue]
      · obtain ⟨hname, -, hvalue⟩ := Binding.parts_of_bare hb
        simp only [ItemKind.bare, hname, hvalue]
    · exact .ite htype (.failUnexpected H _)
  · exact .ite htype (.failUnexpected H _)

theorem alike_item : ReadsAlike doc doc' L L' Item.bare item item := by
  refine .bind .here fun start start' _ => .bindSame (.takeWord H _) fun exported => .cursor fun c c' hc => ?_
  rw [startsExportable_alike H hc]
  refine .ite (.throwBind ?_) (.bind (alike_itemKind H) fun content content' hcontent =>
    .bind (.spanFrom _ _) fun _ _ _ => .pure ?_)
  · simp only [Fault.bare, Fault.ofCause, Cause.bare, hc.kind H.bare]
  · simp only [Item.bare, hcontent]

end Grammar

open Grammar

/-! ## Programs -/

theorem alike_items {doc doc' : List Token} {L L' : Level} (H : Level.Alike doc doc' L L') :
    ReadsAlike doc doc' L L' (List.map Item.bare) items items :=
  .recovering H Resume.item_blind (fun _ => rfl) (alike_item H)

theorem level_alike {doc doc' : List Token} (hbare : bareTokens doc = bareTokens doc')
    (hoffsets : ∀ {a a' b b' : Nat}, SameOffset doc doc' a a' → SameOffset doc doc' b b' → (a = b ↔ a' = b'))
    (source source' : String) (options : Options) (n : Nat) :
    (level (.ofSource source options) n).Alike doc doc' (level (.ofSource source' options) n) := by
  induction n with
  | zero =>
    have deep {α β : Type} (view : α → β) {s s' : State} (hs : s.Alike doc doc' s') :
        EndsAlike doc doc' view (tooDeep options.maxDepth s : Ending α) (tooDeep options.maxDepth s') :=
      .error rfl hs
    exact ⟨hbare, hoffsets, rfl, rfl, fun _ _ _ hs => deep _ hs, fun _ _ _ hs => deep _ hs,
      fun hs => deep _ hs, fun hs => deep _ hs, fun hs => deep _ hs⟩
  | succ n ih =>
    exact ⟨hbare, hoffsets, rfl, rfl, fun position s s' hs => alike_chain ih 1 position s s' hs,
      fun position s s' hs => alike_chain ih operandLevel position s s' hs, fun hs => alike_blockBody ih _ _ hs,
      fun hs => alike_typeExpr ih _ _ hs, fun hs => alike_recordExpr ih _ _ hs⟩

theorem EndsAlike.reading {doc doc' : List Token} {ending ending' : Ending (List Item)}
    (h : EndsAlike doc doc' (List.map Item.bare) ending ending') :
    (Ending.reading ending).value.map Item.bare = (Ending.reading ending').value.map Item.bare ∧
      (Ending.reading ending).faults.map Fault.bare = (Ending.reading ending').faults.map Fault.bare := by
  cases h with
  | ok same states => exact ⟨same, states.faults⟩
  | error same states => exact ⟨rfl, states.faults⟩

/-- Layout is not read. Of documents that are alike but for layout, with the same options, the programs
are the same but for spans, the text of macro bodies and how escapes are written, and so are the
faults: in number, order, kind, wording, what was accepted, the advice and whether text was passed
over. -/
theorem readItems_bare (source source' : String) (options : Options)
    (h : bareTokens (lex source).tokens = bareTokens (lex source').tokens) :
    let reading := readItems (.ofSource source options) (lex source).tokens
    let reading' := readItems (.ofSource source' options) (lex source').tokens
    (∀ shebang shebang', Program.bare ⟨shebang, reading.value, ⟨0, source.utf8ByteSize⟩⟩ =
      Program.bare ⟨shebang', reading'.value, ⟨0, source'.utf8ByteSize⟩⟩) ∧
    reading.faults.map Fault.bare = reading'.faults.map Fault.bare ∧
    reading.faults.map Fault.wording = reading'.faults.map Fault.wording := by
  obtain ⟨lo, hi, hspread⟩ := lex_spread source
  obtain ⟨lo', hi', hspread'⟩ := lex_spread source'
  have hlevel := level_alike h (SameOffset.eq_iff hspread hspread') source source' options options.maxDepth
  have hends : EndsAlike (lex source).tokens (lex source').tokens (List.map Item.bare)
      (itemsEnding (.ofSource source options) (lex source).tokens)
      (itemsEnding (.ofSource source' options) (lex source').tokens) :=
    alike_items hlevel _ _ (.ofTokens h)
  obtain ⟨hitems, hfaults⟩ := hends.reading
  rw [← readItems_eq, ← readItems_eq] at hitems hfaults
  have hwording (faults : List Fault) : faults.map Fault.wording = (faults.map Fault.bare).map Fault.wording := by
    rw [List.map_map]
    exact List.map_congr_left fun fault _ => fault.wording_bare.symm
  intro reading reading'
  have hprogram (shebang shebang' : Option Span) : Program.bare ⟨shebang, reading.value, ⟨0, source.utf8ByteSize⟩⟩ =
      Program.bare ⟨shebang', reading'.value, ⟨0, source'.utf8ByteSize⟩⟩ := by
    rw [Program.bare, Program.bare, hitems]
  have hwordings : reading.faults.map Fault.wording = reading'.faults.map Fault.wording := by
    rw [hwording reading.faults, hwording reading'.faults, hfaults]
  exact ⟨hprogram, hfaults, hwordings⟩

/-- Braces that open neither a record nor a block, on one line and on four. -/
theorem readItems_bare_record :
    bareTokens (lex "x := \x7b a, b c = \x7d").tokens = bareTokens (lex "x := \x7b\n  a,\n  b c =\n\x7d").tokens ∧
    (readItems (.ofSource "x := \x7b a, b c = \x7d" .standard)
        (lex "x := \x7b a, b c = \x7d").tokens).faults.map Fault.wording =
      (readItems (.ofSource "x := \x7b\n  a,\n  b c =\n\x7d" .standard)
        (lex "x := \x7b\n  a,\n  b c =\n\x7d").tokens).faults.map Fault.wording := by
  have h : bareTokens (lex "x := \x7b a, b c = \x7d").tokens =
      bareTokens (lex "x := \x7b\n  a,\n  b c =\n\x7d").tokens := by cbv
  exact ⟨h, (readItems_bare "x := \x7b a, b c = \x7d" "x := \x7b\n  a,\n  b c =\n\x7d" .standard h).2.2⟩

end JuiceSyntax
