/-
  Reading does not depend on where a text stands. Every production of expressions reads in
  another place what it reads here, moved there (`moves_chain`, ...), one lemma for each of them.

  `level_moves`: so do the readers of a level, if the one document holds the other's text where
  the move says.
-/
import JuiceSyntax.Proofs.Grammar.Moving

namespace JuiceSyntax

open Reader

namespace Grammar

variable {m : Move} {L L' : Level}

/-! ## Names -/

/-- A name with its span. -/
def movedNamed (f : Nat → Nat) (named : String × Span) : String × Span := (named.1, named.2.moved f)

theorem moves_name : ReadsMoved m L L' (movedNamed m.offset) name name := by
  refine .onKind (fun kind _ => ?_) fun _ _ _ => .failUnexpected _
  split
  · exact .bind .advance fun _ => .pure rfl
  · exact .failUnexpected _

theorem moves_labelBefore (label? : Option String) (next : Kind) : ReadsMoved m L L' id
    (match label?, next with
      | some label, .mark .colon => do
        skip 2
        return some label
      | _, _ => return none)
    (match label?, next.moved m.offset with
      | some label, .mark .colon => do
        skip 2
        return some label
      | _, _ => return none) := by
  obtain h | ⟨multiline, pieces, rfl⟩ := next.moved_cases m.offset
  · rw [h]
    split
    · exact .bind (.skip 2) fun _ => .pure rfl
    · exact .pure rfl
  · cases label? <;> exact .pure rfl

theorem moves_argLabel : ReadsMoved m L L' id argLabel argLabel :=
  .onKind (fun _ _ => .bind (.peek 1) fun next => moves_labelBefore _ next)
    fun _ _ _ => .bind (.peek 1) fun next => moves_labelBefore none next

section

variable (H : Level.Moves m L L')
include H

/-! ## Literals -/

theorem moves_fragment {tokens : List Token} (htokens : m.Holds tokens) (span : Span) :
    ReadsMoved m L L' (Expr.moved m.offset) (fragment tokens span)
      (fragment (movedTokens m.offset tokens) (span.moved m.offset)) := by
  have hdone : (movedTokens m.offset tokens).all (·.kind.isDone) = tokens.all (·.kind.isDone) := by
    rw [← all_isDone_bareTokens, bareTokens_moved, all_isDone_bareTokens]
  unfold fragment
  rw [hdone]
  refine .ite (.throwBind rfl) (.withTokens htokens (.bind (.expr H _) fun _ => .bind .atEnd fun _ => ?_))
  exact .unlessBind (.failAdvised _ _) fun _ => .pure rfl

theorem moves_segments {pieces : List Piece} (h : ∀ tokens span, .fragment tokens span ∈ pieces → m.Holds tokens) :
    ReadsMoved m L L' (movedSegments m.offset) (segments pieces) (segments (movedPieces m.offset pieces)) := by
  induction pieces with
  | nil => exact .pure rfl
  | cons piece rest ih =>
    have hrest := ih fun tokens span hm => h tokens span (List.mem_cons_of_mem _ hm)
    cases piece with
    | text text span => exact .bind hrest fun _ => .pure rfl
    | escape value raw span => exact .bind hrest fun _ => .pure rfl
    | fragment tokens span =>
      exact .bind (moves_fragment H (h tokens span List.mem_cons_self) span) fun _ => .bind hrest fun _ => .pure rfl
    | indent span => exact hrest

omit H in
theorem indentSpans_moved (f : Nat → Nat) (pieces : List Piece) :
    indentSpans (movedPieces f pieces) = (indentSpans pieces).map (·.moved f) := by
  induction pieces with
  | nil => rfl
  | cons piece rest ih => cases piece <;> simp_all [indentSpans, movedPieces]

theorem moves_stringLiteral {multiline : Bool} {pieces : List Piece}
    (h : FineKind m.Holds (.str multiline pieces)) :
    ReadsMoved m L L' (Expr.moved m.offset) (stringLiteral multiline pieces)
      (stringLiteral multiline (movedPieces m.offset pieces)) := by
  refine .bind .advance fun token => .bind (moves_segments H (h multiline pieces rfl)) fun segments => .pure ?_
  cases multiline with
  | true => simp only [if_true, Expr.moved, ExprKind.moved, Layout.moved, indentSpans_moved, Token.moved]
  | false => simp only [Bool.false_eq_true, if_false, Expr.moved, ExprKind.moved, Layout.moved, Token.moved]

theorem moves_listLiteral : ReadsMoved m L L' (Expr.moved m.offset) listLiteral listLiteral := by
  refine .bind (.needMark _) fun opening => .bind (.separated _ (.expr H _)) fun items =>
    .bind (.needMark _) fun closing => .pure ?_
  simp only [Expr.moved, ExprKind.moved, movedExprs_eq_map, m.cover]

omit H in
theorem moves_atom {kind : ExprKind} (h : kind.moved m.offset = kind) :
    ReadsMoved m L L' (Expr.moved m.offset) (atom kind) (atom kind) :=
  .bind .advance fun _ => .pure (by simp only [Expr.moved, h, Token.moved])

/-! ## Types -/

theorem moves_typeArg : ReadsMoved m L L' (TypeArg.moved m.offset) typeArg typeArg := by
  refine .bind .here fun start => .bind moves_argLabel fun label => .bind (.type H) fun value => .pure ?_
  simp only [TypeArg.moved, TypeExpr.span_moved, m.cover, id]

theorem moves_typeCall (callee : String) (span : Span) :
    ReadsMoved m L L' (TypeExpr.moved m.offset) (typeCall callee span) (typeCall callee (span.moved m.offset)) := by
  refine .bind (.needMark _) fun _ => .bind (.separated _ (moves_typeArg H)) fun args =>
    .bind (.needMark _) fun closing => .pure ?_
  simp only [TypeExpr.moved, TypeKind.moved, movedTypeArgs_eq_map, m.cover]

theorem moves_typeParens : ReadsMoved m L L' (TypeExpr.moved m.offset) typeParens typeParens := by
  unfold typeParens
  refine .bind (.needMark _) fun opening => .bind (.atMark _) fun _ => .whenBind (.failAdvised _ _) fun _ =>
    .bind (.type H) fun first => .bind (.takeMark _) fun _ => .ite (.bind (.atMark _) fun _ => .ite ?_ ?_) ?_
  · refine .bind .advance fun closing => .bind (.recordCover H rfl) fun _ => .pure ?_
    simp only [TypeExpr.moved, TypeKind.moved, Token.moved, m.cover]
  · refine .bind (.separated _ (.type H)) fun rest => .bind (.needMark _) fun closing => .pure ?_
    simp only [TypeExpr.moved, TypeKind.moved, movedTypes_eq_map, List.map_cons, m.cover]
  · refine .bind (.needMark _) fun closing => .pure ?_
    simp only [TypeExpr.moved, TypeKind.moved, m.cover]

omit H in
theorem moved_ofName (f : Nat → Nat) (text : String) :
    ((BuiltinType.ofName? text).elim (TypeKind.name text) .builtin).moved f =
      (BuiltinType.ofName? text).elim (.name text) .builtin := by
  cases BuiltinType.ofName? text <;> rfl

theorem moves_typeOfName (text : String) {kind : TypeKind} (h : kind.moved m.offset = kind) :
    ReadsMoved m L L' (TypeExpr.moved m.offset) (typeOfName text kind) (typeOfName text kind) := by
  refine .bind .advance fun token => .bind (.atMark _) fun _ => .ite (moves_typeCall H _ _) (.pure ?_)
  simp only [TypeExpr.moved, h, Token.moved]

omit H in
theorem moves_literalType {literal literal' : Reader Expr}
    (h : ReadsMoved m L L' (Expr.moved m.offset) literal literal') :
    ReadsMoved m L L' (TypeExpr.moved m.offset) (literalType literal) (literalType literal') :=
  .bind h fun value => .pure (by simp only [TypeExpr.moved, TypeKind.moved, Expr.span_moved])

theorem moves_typeAtom : ReadsMoved m L L' (TypeExpr.moved m.offset) typeAtom typeAtom := by
  refine .onKind (fun kind hne => ?_) fun multiline pieces h => moves_literalType (moves_stringLiteral H h)
  split
  · exact moves_typeOfName H _ (moved_ofName _ _)
  · exact moves_typeOfName H _ rfl
  · exact moves_literalType (moves_atom rfl)
  · exact moves_literalType (moves_atom rfl)
  · exact moves_literalType (moves_atom rfl)
  · exact absurd rfl (hne _ _)
  · exact moves_literalType (moves_listLiteral H)
  · exact moves_typeParens H
  · exact .failUnexpected _

omit H in
/-- What a kind without pieces decides it decides in every place. -/
theorem plain_moved {α : Type} (of : Kind → α) (h : ∀ kind : Kind, of kind.bare = of kind) (f : Nat → Nat) (kind : Kind) :
    of (kind.moved f) = of kind := by
  rw [← h, Kind.bare_moved, h]

theorem moves_typeRestUpTo (left : TypeExpr) (fuel : Nat) :
    ReadsMoved m L L' (TypeExpr.moved m.offset) (typeRestUpTo left fuel)
      (typeRestUpTo (left.moved m.offset) fuel) := by
  induction fuel generalizing left with
  | zero => exact .pure rfl
  | succ fuel ih =>
    refine .bind .kind fun kind => ?_
    rw [plain_moved TypeOp.ofKind? TypeOp.ofKind?_bare]
    cases TypeOp.ofKind? kind with
    | none => exact .pure rfl
    | some op =>
      refine .bind .advance fun _ => .bind (moves_typeAtom H) fun right => ?_
      have hjoined := ih ⟨.binary op left right, left.span.cover right.span⟩
      rw [TypeExpr.moved, TypeKind.moved, m.cover, ← TypeExpr.span_moved, ← TypeExpr.span_moved] at hjoined
      exact hjoined

theorem moves_typeExpr : ReadsMoved m L L' (TypeExpr.moved m.offset) typeExpr typeExpr :=
  .bind (moves_typeAtom H) fun _ => .bind .tokensLeft fun _ => moves_typeRestUpTo H _ _

/-! ## Functions -/

theorem moves_param : ReadsMoved m L L' (Param.moved m.offset) (param name) (param name) := by
  refine .bind moves_name fun named => .bind (.takeMark _) fun _ => .ite (.bind (.type H) fun declared => .pure ?_)
    (.pure rfl)
  simp only [Param.moved, Option.map_some, TypeExpr.span_moved, m.cover]

theorem moves_params : ReadsMoved m L L' (List.map (Param.moved m.offset)) (params name) (params name) :=
  .bind (.needMark _) fun _ => .bind (.separated _ (moves_param H)) fun _ => .bind (.needMark _) fun _ => .pure rfl

omit H in
theorem moves_fnName : ReadsMoved m L L' (Option.map (FnName.moved m.offset)) fnName fnName := by
  refine .onKind (fun kind _ => ?_) fun _ _ _ => .pure rfl
  split
  · exact .bind .advance fun _ => .pure rfl
  · exact .bind .advance fun _ => .pure rfl
  · exact .pure rfl

theorem moves_fnDecl : ReadsMoved m L L' (FnDecl.moved m.offset) fnDecl fnDecl := by
  refine .bind .here fun start => .bind (.takeWord _) fun isStatic => .bind (.needWord _) fun _ =>
    .bind moves_fnName fun title => .bind (.atMark _) fun _ =>
    .iteBind (moves_params H) (.pure rfl) fun items => .bind (.takeMark _) fun _ =>
    .iteBind (g := Option.map (TypeExpr.moved m.offset)) (.map (.type H) fun _ => rfl) (.pure rfl) fun result =>
    .bind (.block H) fun body => .bind (.spanFrom _) fun span => .pure ?_
  simp only [FnDecl.moved, movedParams_eq_map, movedType?_eq_map, id]

/-! ## Arguments and macros -/

theorem moves_arg : ReadsMoved m L L' (Arg.moved m.offset) arg arg := by
  refine .bind .here fun start => .bind moves_argLabel fun label => .bind (.expr H _) fun value => .pure ?_
  simp only [Arg.moved, Expr.span_moved, m.cover, id]

/-- The arguments in parentheses, with the span of the closing one. -/
theorem moves_args : ReadsMoved m L L' (fun call => (call.1.map (Arg.moved m.offset), call.2.moved m.offset)) args args :=
  .bind (.needMark _) fun _ => .bind (.separated _ (moves_arg H)) fun _ => .bind (.needMark _) fun _ => .pure rfl

omit H in
theorem innerLength_moved (f : Nat → Nat) (tokens : List Token) :
    innerLength 0 (movedTokens f tokens) = innerLength 0 tokens := by
  rw [← innerLength_bareTokens, bareTokens_moved, innerLength_bareTokens]

theorem moves_macroBody : ReadsMoved m L L' (MacroBody.moved m.offset) macroBody macroBody := by
  refine .bind (.needMark _) fun opening => .cursor fun c _ => ?_
  have hlength : innerLength 0 (c.moved m.offset).rest = innerLength 0 c.rest := innerLength_moved _ _
  dsimp only
  rw [hlength]
  refine .bind (.skip _) fun _ => .unlessEnd (.bind .here fun _ => .throwBind rfl) fun closing hbegins hstop => ?_
  refine .bind (.noteBody ⟨opening.stop, closing.span.start⟩) fun _ => ?_
  refine .bind (.sourceText H hbegins hstop) fun text => .pure ?_
  simp only [MacroBody.moved, Cursor.moved, movedTokens_eq_map, List.map_take, Token.moved, m.cover, id]
  rfl

theorem moves_macroCall (text : String) (position : Position) :
    ReadsMoved m L L' (Expr.moved m.offset) (macroCall text position) (macroCall text position) := by
  refine .bind .advance fun token => .bind (.atMark _) fun parenthesized =>
    .iteBind (moves_args H) (.pure rfl) fun call => .bind (.atMark _) fun _ =>
    .ite (.bind (moves_macroBody H) fun body => .pure ?_) (.ite (.pure ?_) (.failUnexpected _))
  · simp only [Expr.moved, ExprKind.moved, movedArgs_eq_map, Option.map_some, MacroBody.moved, Token.moved, m.cover, id]
  · simp only [Expr.moved, ExprKind.moved, movedArgs_eq_map, Option.map_none, Token.moved, m.cover]

theorem moves_parens : ReadsMoved m L L' (Expr.moved m.offset) parens parens := by
  unfold parens
  refine .bind (.needMark _) fun opening => .bind (.atMark _) fun _ => .whenBind (.failAdvised _ _) fun _ =>
    .bind (.expr H _) fun first => .bind (.takeMark _) fun _ => .ite (.bind (.atMark _) fun _ => .ite ?_ ?_) ?_
  · refine .bind .advance fun closing => .bind (.recordCover H rfl) fun _ => .pure ?_
    simp only [Expr.moved, ExprKind.moved, Token.moved, m.cover]
  · refine .bind (.separated _ (.expr H _)) fun rest => .bind (.needMark _) fun closing => .pure ?_
    simp only [Expr.moved, ExprKind.moved, movedExprs_eq_map, List.map_cons, m.cover]
  · refine .bind (.needMark _) fun closing => .pure ?_
    simp only [Expr.moved, ExprKind.moved, m.cover]

/-! ## Braces -/

theorem moves_blockExpr : ReadsMoved m L L' (Expr.moved m.offset) blockExpr blockExpr :=
  .bind (.block H) fun body => .pure (by simp only [Expr.moved, ExprKind.moved, Block.span_moved])

omit H in
theorem looksLikeRecord_moved (f : Nat → Nat) (c : Cursor) : looksLikeRecord (c.moved f) = looksLikeRecord c := by
  unfold looksLikeRecord
  rw [Cursor.peek_moved, Cursor.peek_moved]
  cases c.peek 1 with
  | mark mark => cases mark <;> rfl
  | name text =>
    cases c.peek 2 with
    | mark mark => cases mark <;> rfl
    | _ => rfl
  | _ => rfl

theorem moves_unresolvable : ReadsMoved m L L' (Expr.moved m.offset) unresolvable unresolvable := by
  refine .bind .here fun start => .cursor fun c _ => ?_
  have hlength : groupLength 0 (c.moved m.offset).rest = groupLength 0 c.rest := by
    rw [Cursor.moved, ← groupLength_bareTokens, bareTokens_moved, groupLength_bareTokens]
  rw [hlength]
  exact .bind (.skip _) fun _ => .bind (.spanFrom _) fun _ => .bind (.record H rfl) fun _ => .pure rfl

/-- A brace tried as one form and then as something else. -/
theorem moves_tryBrace_else (form : BraceForm) {r otherwise : Reader Expr}
    (tried : ReadsMoved m L L' (Expr.moved m.offset) r r)
    (ho : ReadsMoved m L L' (Expr.moved m.offset) otherwise otherwise) :
    ReadsMoved m L L' (Expr.moved m.offset)
      (do
        if let some e ← tryBrace form r then
          return e
        otherwise)
      (do
        if let some e ← tryBrace form r then
          return e
        otherwise) := by
  refine .bind (.tryBrace H form tried) fun found => ?_
  cases found with
  | none => exact ho
  | some e => exact .pure rfl

theorem moves_braceValue : ReadsMoved m L L' (Expr.moved m.offset) braceValue braceValue := by
  refine .cursor fun c _ => ?_
  rw [looksLikeRecord_moved]
  refine .ite ?_ (moves_blockExpr H)
  exact moves_tryBrace_else H .record (.recordLiteral H)
    (moves_tryBrace_else H .block (moves_blockExpr H) (moves_unresolvable H))

theorem moves_armBody : ReadsMoved m L L' (Expr.moved m.offset) armBody armBody := by
  refine .bind (.atMark _) fun _ => .unlessBind (.failUnexpected _) fun _ => ?_
  refine moves_tryBrace_else H .block (moves_blockExpr H) (.cursor fun c _ => ?_)
  rw [looksLikeRecord_moved]
  exact .ite (moves_tryBrace_else H .record (.recordLiteral H) (moves_unresolvable H)) (moves_blockExpr H)

/-! ## Control flow -/

def Branch.moved (f : Nat → Nat) (branch : Branch) : Branch :=
  ⟨branch.start.moved f, branch.test.moved f, branch.body.moved f⟩

omit H in
theorem Branch.toExpr_moved (branch : Branch) (otherwise : Option Expr) :
    (branch.moved m.offset).toExpr (otherwise.map (·.moved m.offset)) = (branch.toExpr otherwise).moved m.offset := by
  cases otherwise <;>
    simp only [Branch.toExpr, Branch.moved, Expr.moved, ExprKind.moved, movedExpr?_eq_map, Option.map_none,
      Option.map_some, Option.elim_none, Option.elim_some, Expr.span_moved, Block.span_moved, m.cover]

omit H in
theorem foldr_toExpr_moved (branches : List Branch) (last : Option Expr) :
    (branches.map (Branch.moved m.offset)).foldr (fun b otherwise => some (b.toExpr otherwise))
        (last.map (·.moved m.offset)) =
      (branches.foldr (fun b otherwise => some (b.toExpr otherwise)) last).map (·.moved m.offset) := by
  induction branches with
  | nil => rfl
  | cons branch rest ih => rw [List.map_cons, List.foldr_cons, List.foldr_cons, ih, Branch.toExpr_moved, Option.map_some]

theorem moves_branch : ReadsMoved m L L' (Branch.moved m.offset) branch branch :=
  .bind (.needWord _) fun _ => .bind (.expr H _) fun _ => .bind (.block H) fun _ => .pure rfl

theorem moves_elseBranchesUpTo (fuel : Nat) :
    ReadsMoved m L L' (fun others => (others.1.map (Branch.moved m.offset), others.2.map (Expr.moved m.offset)))
      (elseBranchesUpTo fuel) (elseBranchesUpTo fuel) := by
  induction fuel with
  | zero => exact .pure rfl
  | succ fuel ih =>
    refine .bind (.takeWord _) fun _ => .ite (.bind .kind fun kind => ?_) (.pure rfl)
    rw [Kind.isWord_moved]
    exact .ite (.bind (moves_branch H) fun _ => .bind ih fun _ => .pure rfl)
      (.bind (moves_blockExpr H) fun _ => .pure rfl)

theorem moves_conditional : ReadsMoved m L L' (Expr.moved m.offset) conditional conditional := by
  refine .bind (moves_branch H) fun first => .bind .tokensLeft fun _ => .bind (moves_elseBranchesUpTo H _) fun others =>
    .pure ?_
  obtain ⟨rest, last⟩ := others
  exact (congrArg _ (foldr_toExpr_moved rest last)).trans (Branch.toExpr_moved _ _)

theorem moves_pattern : ReadsMoved m L L' (Pattern.moved m.offset) pattern pattern := by
  have hvalue : ReadsMoved m L L' (Expr.moved m.offset)
      (do
        let value ← expr .head
        unless ← atMark .arrow do
          failUnexpected (.mark .arrow)
        return value)
      (do
        let value ← expr .head
        unless ← atMark .arrow do
          failUnexpected (.mark .arrow)
        return value) :=
    .bind (.expr H _) fun _ => .bind (.atMark _) fun _ => .unlessBind (.failUnexpected _) fun _ => .pure rfl
  refine .bind (.speculate hvalue) fun found => ?_
  cases found with
  | none => exact .bind (.type H) fun _ => .pure rfl
  | some value => exact .pure rfl

theorem moves_arm : ReadsMoved m L L' (Arm.moved m.offset) arm arm := by
  refine .bind (moves_pattern H) fun left => .bind (.needMark _) fun _ => .bind (moves_armBody H) fun right => .pure ?_
  simp only [Arm.moved, Pattern.span_moved, Expr.span_moved, m.cover]

theorem moves_selection : ReadsMoved m L L' (Expr.moved m.offset) selection selection := by
  refine .bind (.needWord _) fun start => .bind (.expr H _) fun scrutinee => .bind (.needMark _) fun _ =>
    .bind (.recovering H Resume.arm_blind _ (moves_arm H)) fun arms => .bind (.needMark _) fun closing => .pure ?_
  simp only [Expr.moved, ExprKind.moved, movedArms_eq_map, m.cover]

/-! ## Operands and chains -/

theorem moves_primary (position : Position) :
    ReadsMoved m L L' (Expr.moved m.offset) (primary position) (primary position) := by
  have hfn : ReadsMoved m L L' (Expr.moved m.offset) (do let decl ← fnDecl; return ⟨.fn decl, decl.span⟩)
      (do let decl ← fnDecl; return ⟨.fn decl, decl.span⟩) :=
    .bind (moves_fnDecl H) fun decl => .pure (by simp only [Expr.moved, ExprKind.moved, FnDecl.span_moved])
  refine .onKind (fun kind hne => ?_) fun multiline pieces h => moves_stringLiteral H h
  split
  · exact moves_atom rfl
  · exact moves_atom rfl
  · exact moves_atom rfl
  · exact moves_atom rfl
  · exact moves_atom rfl
  · exact absurd rfl (hne _ _)
  · exact moves_macroCall H _ _
  · exact moves_listLiteral H
  · exact moves_parens H
  · cases position with
    | statement => exact moves_blockExpr H
    | value => exact moves_braceValue H
    | head => exact .failUnexpected _
  · exact hfn
  · exact hfn
  · exact moves_conditional H
  · exact moves_selection H
  · exact .bind .here fun _ => .throw rfl
  · exact .bind .here fun _ => .throw rfl
  · exact .failUnexpected _

omit H in
theorem typeAccess_moved (base member : Expr) :
    typeAccess (base.moved m.offset) (member.moved m.offset) = (typeAccess base member).moved m.offset := by
  simp only [typeAccess, Expr.moved, ExprKind.moved, Expr.span_moved, m.cover]

theorem moves_accessesUpTo (position : Position) (base : Expr) (fuel : Nat) :
    ReadsMoved m L L' (Expr.moved m.offset) (accessesUpTo position base fuel)
      (accessesUpTo position (base.moved m.offset) fuel) := by
  induction fuel generalizing base with
  | zero => exact .pure rfl
  | succ fuel ih =>
    refine .bind (.takeMark _) fun _ => .ite (.bind (moves_primary H _) fun member => ?_) (.pure rfl)
    rw [typeAccess_moved]
    exact ih _

omit H in
theorem acceptsAttempt_moved (f : Nat → Nat) (kind : ExprKind) : acceptsAttempt (kind.moved f) = acceptsAttempt kind := by
  cases kind <;> rfl

omit H in
theorem moves_onceAttempted (e : Expr) {next next' : Unit → Reader Expr}
    (hnext : ReadsMoved m L L' (Expr.moved m.offset) (next ()) (next' ())) :
    ReadsMoved m L L' (Expr.moved m.offset) (onceAttempted e next) (onceAttempted (e.moved m.offset) next') := by
  obtain ⟨kind, span⟩ := e
  cases kind with
  | attempt inner => exact .bind (.failAdvised (g := id) _ _) fun _ => hnext
  | _ => exact hnext

omit H in
theorem moves_attemptOf (e : Expr) :
    ReadsMoved m L L' (Expr.moved m.offset) (attemptOf e) (attemptOf (e.moved m.offset)) := by
  have haccepts : acceptsAttempt (e.moved m.offset).kind = acceptsAttempt e.kind := by
    rw [Expr.kind_moved, acceptsAttempt_moved]
  unfold attemptOf
  rw [haccepts]
  refine moves_onceAttempted e ?_
  refine .unlessBind (.failAdvised _ _) fun _ => .bind .advance fun token => .pure ?_
  simp only [Expr.moved, ExprKind.moved, Expr.span_moved, Token.moved, m.cover]

theorem moves_postfixUpTo (position : Position) (e : Expr) (fuel : Nat) :
    ReadsMoved m L L' (Expr.moved m.offset) (postfixUpTo position e fuel)
      (postfixUpTo position (e.moved m.offset) fuel) := by
  induction fuel generalizing e with
  | zero => exact .pure rfl
  | succ fuel ih =>
    refine .onKind (fun kind _ => ?_) fun _ _ _ => .pure rfl
    split
    · refine .bind (moves_args H) fun call => ?_
      have hcalled := ih ⟨.call e call.1, e.span.cover call.2⟩
      rw [Expr.moved, ExprKind.moved, movedArgs_eq_map, m.cover, ← Expr.span_moved] at hcalled
      exact hcalled
    · refine .bind .advance fun _ => .bind (moves_primary H _) fun first => .bind .tokensLeft fun _ =>
        .bind (moves_accessesUpTo H _ _ _) fun member => ?_
      have haccessed := ih ⟨.member e member, e.span.cover member.span⟩
      rw [Expr.moved, ExprKind.moved, m.cover, ← Expr.span_moved, ← Expr.span_moved] at haccessed
      exact haccessed
    · refine .bind .advance fun _ => .bind (moves_primary H _) fun member => ?_
      rw [typeAccess_moved]
      exact ih _
    · exact .bind (moves_attemptOf e) fun inner => ih inner
    · exact .pure rfl

theorem moves_postfixExpr (position : Position) :
    ReadsMoved m L L' (Expr.moved m.offset) (postfixExpr position) (postfixExpr position) :=
  .bind (moves_primary H _) fun _ => .bind .tokensLeft fun _ => moves_postfixUpTo H _ _ _

theorem moves_unaryExpr (position : Position) :
    ReadsMoved m L L' (Expr.moved m.offset) (unaryExpr position) (unaryExpr position) := by
  refine .bind .kind fun kind => ?_
  rw [plain_moved UnaryOp.ofKind? UnaryOp.ofKind?_bare]
  cases UnaryOp.ofKind? kind with
  | none => exact moves_postfixExpr H _
  | some op =>
    refine .bind .advance fun token => .bind (.operand H _) fun inner => .pure ?_
    simp only [Expr.moved, ExprKind.moved, Expr.span_moved, Token.moved, m.cover]

theorem moves_chainUpTo (level : Nat) (position : Position) (fuel : Nat) :
    ReadsMoved m L L' (List.map (Prod.map id (Expr.moved m.offset))) (chainUpTo level position fuel)
      (chainUpTo level position fuel) := by
  induction fuel with
  | zero => exact .pure rfl
  | succ fuel ih =>
    refine .bind .kind fun kind => ?_
    rw [plain_moved BinaryOp.ofKind? BinaryOp.ofKind?_bare]
    cases (BinaryOp.ofKind? kind).filter fun op => level ≤ op.level with
    | none => exact .pure rfl
    | some op => exact .bind .advance fun _ => .bind (moves_unaryExpr H _) fun _ => .bind ih fun _ => .pure rfl

omit H in
theorem settle_moved (level : Nat) (waiting : List (Expr × BinaryOp)) (right : Expr) :
    settle level (waiting.map (Prod.map (Expr.moved m.offset) id)) (right.moved m.offset) =
      ((settle level waiting right).1.map (Prod.map (Expr.moved m.offset) id),
        (settle level waiting right).2.moved m.offset) := by
  induction waiting generalizing right with
  | nil => rfl
  | cons first waiting ih =>
    obtain ⟨left, op⟩ := first
    have hjoined : binaryExpr op (left.moved m.offset) (right.moved m.offset) =
        (binaryExpr op left right).moved m.offset := by
      simp only [binaryExpr, Expr.moved, ExprKind.moved, Expr.span_moved, m.cover]
    rw [List.map_cons, Prod.map, settle, settle]
    dsimp only [id]
    split
    · rw [hjoined, ih]
    · rfl

omit H in
theorem climb_moved (waiting : List (Expr × BinaryOp)) (last : Expr) (rest : List (BinaryOp × Expr)) :
    climb (waiting.map (Prod.map (Expr.moved m.offset) id)) (last.moved m.offset)
        (rest.map (Prod.map id (Expr.moved m.offset))) =
      (climb waiting last rest).moved m.offset := by
  induction rest generalizing waiting last with
  | nil => rw [List.map_nil, climb, climb, settle_moved]
  | cons first rest ih =>
    obtain ⟨op, next⟩ := first
    rw [List.map_cons, Prod.map, climb, climb]
    dsimp only [id]
    rw [settle_moved]
    exact ih (((settle op.level waiting last).2, op) :: (settle op.level waiting last).1) next

theorem moves_chain (level : Nat) (position : Position) :
    ReadsMoved m L L' (Expr.moved m.offset) (chain level position) (chain level position) :=
  .bind (moves_unaryExpr H _) fun first => .bind .tokensLeft fun _ => .bind (moves_chainUpTo H _ _ _) fun rest =>
    .pure (climb_moved [] first rest)

/-! ## Records -/

omit H in
theorem moves_fieldEnd (field : RecordField) :
    ReadsMoved m L L' (RecordField.moved m.offset) (fieldEnd field) (fieldEnd (field.moved m.offset)) := by
  refine .bind (.takeMark _) fun _ => .ite (.pure rfl) (.onKind (fun kind _ => ?_) fun _ _ _ => ?_)
  · split
    · exact .pure rfl
    · exact .pure rfl
    · exact .bind (.failUnexpected (g := id) _) fun _ => .pure rfl
  · exact .bind (.failUnexpected (g := id) _) fun _ => .pure rfl

theorem moves_recordField : ReadsMoved m L L' (RecordField.moved m.offset) recordField recordField := by
  refine .bind moves_name fun named => .bind (.takeMark _) fun _ => .ite (.bind (.expr H _) fun value => ?_)
    (moves_fieldEnd _)
  have hfield : ReadsMoved m L L' _ _ _ := moves_fieldEnd ⟨named.1, some value, named.2.cover value.span⟩
  rw [RecordField.moved, Option.map_some, m.cover, ← Expr.span_moved] at hfield
  exact hfield

theorem moves_recordFieldsUpTo (fuel : Nat) :
    ReadsMoved m L L' (List.map (RecordField.moved m.offset)) (recordFieldsUpTo fuel) (recordFieldsUpTo fuel) := by
  induction fuel with
  | zero => exact .pure rfl
  | succ fuel ih =>
    exact .bind (.atMark _) fun _ => .ite (.pure rfl) (.bind (moves_recordField H) fun _ => .bind ih fun _ => .pure rfl)

theorem moves_recordExpr : ReadsMoved m L L' (Expr.moved m.offset) recordExpr recordExpr := by
  refine .bind (.needMark _) fun opening => .bind .tokensLeft fun _ => .bind (moves_recordFieldsUpTo H _) fun fields =>
    .bind .advance fun closing => .pure ?_
  simp only [Expr.moved, ExprKind.moved, movedRecordFields_eq_map, Token.moved, m.cover]

/-! ## Statements and blocks -/

def Binding.moved (f : Nat → Nat) (b : Binding) : Binding :=
  ⟨b.name, b.nameSpan.moved f, b.type.map (·.moved f), b.value.moved f⟩

omit H in
theorem startsDeclaration_moved (f : Nat → Nat) (c : Cursor) : startsDeclaration (c.moved f) = startsDeclaration c := by
  unfold startsDeclaration
  rw [Cursor.kind_moved, Cursor.peek_moved]
  cases c.kind with
  | name text => cases c.peek 1 <;> rfl
  | _ => rfl

omit H in
theorem startsAssignment_moved (f : Nat → Nat) (c : Cursor) : startsAssignment (c.moved f) = startsAssignment c := by
  unfold startsAssignment
  rw [Cursor.kind_moved, Cursor.peek_moved]
  cases c.kind with
  | name text => cases c.peek 1 <;> rfl
  | _ => rfl

theorem moves_binding : ReadsMoved m L L' (Binding.moved m.offset) binding binding := by
  have valued (text : String) (span : Span) (declared : Option TypeExpr) : ReadsMoved m L L' (Binding.moved m.offset)
      (do return ⟨text, span, declared, ← expr .value⟩)
      (do return ⟨text, span.moved m.offset, declared.map (·.moved m.offset), ← expr .value⟩) :=
    .bind (.expr H _) fun _ => .pure rfl
  refine .bind moves_name fun named => .bind (.takeMark _) fun _ => .ite ?_ ?_
  · exact .bind (.type H) fun declared => .bind (.takeMark _) fun _ => .unlessBind (.failUnexpected _) fun _ =>
      valued _ _ (some declared)
  · exact .bind (.needMark _) fun _ => valued _ _ none

theorem moves_assignment : ReadsMoved m L L' (Binding.moved m.offset) assignment assignment :=
  .bind moves_name fun _ => .bind (.needMark _) fun _ => .bind (.expr H _) fun _ => .pure rfl

theorem moves_loop : ReadsMoved m L L' (StatementKind.moved m.offset) loop loop := by
  have ranged (element : Option String) : ReadsMoved m L L' (StatementKind.moved m.offset)
      (do
        let first ← expr .head
        let range ← if ← takeMark .dotDot then .between first <$> expr .head else pure (.over first)
        return StatementKind.loop element range (← block))
      (do
        let first ← expr .head
        let range ← if ← takeMark .dotDot then .between first <$> expr .head else pure (.over first)
        return StatementKind.loop element range (← block)) :=
    .bind (.expr H _) fun _ => .bind (.takeMark _) fun _ =>
      .iteBind (g := LoopRange.moved m.offset) (.map (.expr H _) fun _ => rfl) (.pure rfl) fun _ =>
      .bind (.block H) fun _ => .pure rfl
  unfold loop
  refine .bind (.needWord _) fun _ => .bind (.atMark _) fun _ => .ite (.bind (.block H) fun _ => .pure rfl) ?_
  refine .onKind (fun kind _ => .bind (.peek 1) fun next => ?_) fun _ _ _ => .bind (.peek 1) fun next => ranged none
  obtain h | ⟨multiline, pieces, rfl⟩ := next.moved_cases m.offset
  · rw [h]
    split
    · exact .bind (.skip 2) fun _ => ranged _
    · exact ranged none
  · cases kind <;> exact ranged none

omit H in
theorem startsExpr_moved (f : Nat → Nat) (kind : Kind) : startsExpr (kind.moved f) = startsExpr kind := by
  cases kind <;> rfl

theorem moves_leave : ReadsMoved m L L' (StatementKind.moved m.offset) leave leave := by
  refine .bind .advance fun _ => .cursor fun c _ => ?_
  rw [Cursor.kind_moved, startsExpr_moved, startsDeclaration_moved, startsAssignment_moved]
  exact .ite (.bind (.expr H _) fun _ => .pure rfl) (.pure rfl)

theorem moves_statementKind : ReadsMoved m L L' (StatementKind.moved m.offset) statementKind statementKind := by
  have hexpr : ReadsMoved m L L' (StatementKind.moved m.offset) (do return .expr (← expr .statement))
      (do return .expr (← expr .statement)) :=
    .bind (.expr H _) fun _ => .pure rfl
  refine .onKind (fun kind _ => ?_) fun _ _ _ => hexpr
  split
  · exact moves_leave H
  · exact .bind .advance fun _ => .pure rfl
  · exact .bind .advance fun _ => .pure rfl
  · exact moves_loop H
  · exact .bind (moves_fnDecl H) fun _ => .pure rfl
  · exact .bind (moves_fnDecl H) fun _ => .pure rfl
  · exact .bind (.block H) fun _ => .pure rfl
  · exact .bind .here fun _ => .throw rfl
  · exact .bind .here fun _ => .throw rfl
  · exact .failAdvised _ _
  · exact .failAdvised _ _
  · exact .failAdvised _ _
  · exact .failAdvised _ _
  · exact .failAdvised _ _
  · refine .cursor fun c _ => ?_
    rw [startsDeclaration_moved, startsAssignment_moved]
    refine .ite (.bind (moves_binding H) fun b => .pure ?_) (.ite (.bind (moves_assignment H) fun b => .pure rfl) hexpr)
    simp only [Binding.moved, StatementKind.moved, movedType?_eq_map]
  · refine .bind (.peek 1) fun next => ?_
    rw [Kind.isMark_moved]
    exact .ite (.failAdvised _ _) hexpr
  · exact hexpr

theorem moves_statement : ReadsMoved m L L' (Statement.moved m.offset) statement statement :=
  .bind .here fun _ => .bind (moves_statementKind H) fun _ => .bind (.spanFrom _) fun _ => .pure rfl

theorem moves_blockBody : ReadsMoved m L L' (Block.moved m.offset) blockBody blockBody := by
  refine .bind (.needMark _) fun opening => .bind (.recovering H Resume.statement_blind _ (moves_statement H))
    fun statements => .bind (.atMark _) fun _ => .ite (.bind .advance fun closing => .pure ?_) ?_
  · simp only [Block.moved, movedStatements_eq_map, Token.moved, m.cover]
  · refine .bind .here fun span => .bind .kind fun kind => .bind .atEnd fun _ => .bind .halted fun _ =>
      .ite (.bind (.record H rfl) fun _ => .bind .here fun span => .pure ?_) (.throw rfl)
    simp only [Block.moved, movedStatements_eq_map, m.cover]

end

end Grammar

/-! ## Levels -/

/-- A text in a document, read in its place and alone, with a depth limit of its own. -/
theorem level_moves {m : Move} {setting setting' : Setting}
    (hsource : ∀ {span : Span}, m.begins span.stop → span.stop < m.stop →
      slice? setting'.source (span.moved m.offset) = slice? setting.source span)
    (hoptions : setting'.options = setting.options.withMaxDepth m.limit) (hremember : setting'.remember = setting.remember)
    (n : Nat) : Level.Moves m (level setting n) (level setting' n) := by
  induction n with
  | zero =>
    have deep {α β : Type} (g : α → β) (s : State) (hs : m.Fits s) :
        Carries m g (tooDeep setting.options.maxDepth s : Ending α) (tooDeep setting'.options.maxDepth (s.moved m)) := by
      refine .error ?_ hs
      rw [hoptions]
      exact congrArg (Fault.ofCause · _) (Cursor.span_moved _ hs.ne_nil)
    exact ⟨hsource, hoptions, hremember, fun _ => deep _, fun _ => deep _, deep _, deep _, deep _⟩
  | succ n ih =>
    exact ⟨hsource, hoptions, hremember, fun position => Grammar.moves_chain ih 1 position,
      fun position => Grammar.moves_chain ih operandLevel position, Grammar.moves_blockBody ih,
      Grammar.moves_typeExpr ih, Grammar.moves_recordExpr ih⟩

end JuiceSyntax
